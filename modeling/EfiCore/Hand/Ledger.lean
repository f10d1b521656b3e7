import EfiCore.Hand.Notify

/-! # What register-notify promises

A `Ledger` is the history of installations and registrations.  Every installation, a
reinstallation included, has a stamp; a registration has been given some of them.  What is *due*
to a registration are the installations of its protocol that are neither uninstalled nor returned
to it yet.  A locate call on the registration answers with the first of these and returns it, or
says that there are none.

`Ledger.Fair` is what follows for a registration over a whole history: it is given installations
in the order of their stamps, none twice, and none that is still to come is older than one given.
-/

namespace EfiCore.Hand

open EfiCore.Lib

structure Installation where
  stamp : Nat
  record : Addr
  handle : Addr
  interface : Nat
  deriving DecidableEq, Repr

structure Ledger where
  /-- Every installation of a protocol there was. -/
  installed : Guid → List Installation
  /-- The stamps of those that were uninstalled or reinstalled. -/
  removed : Guid → List Nat
  registered : Addr → Option Guid
  /-- The stamps returned to a registration. -/
  returned : Addr → List Nat
  clock : Nat

namespace Ledger

variable {A : Arch}

def empty : Ledger := ⟨fun _ => [], fun _ => [], fun _ => none, fun _ => [], 0⟩

def live (l : Ledger) (g : Guid) : List Installation :=
  (l.installed g).filter (·.stamp ∉ l.removed g)

def due (l : Ledger) (n : Addr) : List Installation :=
  match l.registered n with
  | some g => (l.live g).filter (·.stamp ∉ l.returned n)
  | none => []

/-! ## The history -/

def install (l : Ledger) (g : Guid) (p h : Addr) (interface : Nat) : Ledger :=
  { l with
    installed := Function.update l.installed g (l.installed g ++ [⟨l.clock, p, h, interface⟩])
    clock := l.clock + 1 }

def uninstall (l : Ledger) (g : Guid) (p : Addr) : Ledger :=
  { l with
    removed := Function.update l.removed g
      (l.removed g ++ ((l.live g).filter (·.record = p)).map (·.stamp)) }

def register (l : Ledger) (g : Guid) (n : Addr) : Ledger :=
  { l with
    registered := Function.update l.registered n (some g)
    returned := Function.update l.returned n [] }

/-- The first installation due to `n` is returned to it. -/
def giveNext (l : Ledger) (n : Addr) : Ledger :=
  { l with
    returned := Function.update l.returned n
      (l.returned n ++ ((l.due n).head?.map (·.stamp)).toList) }

/-- A section enters the history. -/
def record (l : Ledger) : Event → Ledger
  | .install g p h interface => l.install g p h interface
  | .uninstall g p => l.uninstall g p
  | .reinstall g p h interface => (l.uninstall g p).install g p h interface
  | .register g n => l.register g n
  | .locateHandle n _ .success _ => l.giveNext n
  | .locateProtocol n .success _ => l.giveNext n
  | _ => l

/-- What a section may do after this history, and what it has to answer. -/
def Allows (A : Arch) (l : Ledger) : Event → Prop
  | .uninstall g p => ∃ i ∈ l.live g, i.record = p
  | .reinstall g p h _ => ∃ i ∈ l.live g, i.record = p ∧ i.handle = h
  | .register _ n => l.registered n = none
  | .locateHandle n bufferSize status buffer =>
    match l.due n with
    | [] => status = .notFound ∧ buffer = []
    | i :: _ =>
      if bufferSize < A.pointerSize then status = .bufferTooSmall ∧ buffer = []
      else status = .success ∧ buffer = [i.handle]
  | .locateProtocol n status interface =>
    match l.due n with
    | [] => status = .notFound ∧ interface = 0
    | i :: _ => status = .success ∧ interface = i.interface
  | _ => True

/-- The histories in which every section answered as it has to. -/
def machine (A : Arch) : Machine Ledger Event :=
  ⟨(· = empty), fun l e l' => l.Allows A e ∧ l' = l.record e⟩

/-- A registration is given installations of its protocol in order, none twice; and what was
    skipped was uninstalled before. -/
structure Fair (l : Ledger) (n : Addr) (g : Guid) : Prop where
  inOrder : (l.returned n).Pairwise (· < ·)
  given : ∀ s ∈ l.returned n, ∃ i ∈ l.installed g, i.stamp = s
  skipped : ∀ i ∈ l.installed g, ∀ s ∈ l.returned n, i.stamp < s →
    i.stamp ∈ l.returned n ∨ i.stamp ∈ l.removed g

/-! ## Stamps -/

/-- Stamps grow, and what is due to a registration is newer than what it was given. -/
structure Ordered (l : Ledger) : Prop where
  sorted : ∀ g, (l.installed g).Pairwise fun i j => i.stamp < j.stamp
  past : ∀ g, ∀ i ∈ l.installed g, i.stamp < l.clock
  removedPast : ∀ g, ∀ s ∈ l.removed g, s < l.clock
  returnedPast : ∀ n, ∀ s ∈ l.returned n, s < l.clock
  inOrder : ∀ n, (l.returned n).Pairwise (· < ·)
  ahead : ∀ n, ∀ i ∈ l.due n, ∀ s ∈ l.returned n, s < i.stamp
  given : ∀ n g, l.registered n = some g → ∀ s ∈ l.returned n, ∃ i ∈ l.installed g, i.stamp = s

theorem Ordered.empty : empty.Ordered where
  sorted := fun _ => List.Pairwise.nil
  past := nofun
  removedPast := nofun
  returnedPast := nofun
  inOrder := fun _ => List.Pairwise.nil
  ahead := nofun
  given := nofun

theorem Ordered.fair {l : Ledger} (h : l.Ordered) {n : Addr} {g : Guid}
    (hn : l.registered n = some g) : l.Fair n g where
  inOrder := h.inOrder n
  given := h.given n g hn
  skipped := by
    intro i hi s hs hlt
    by_contra hout
    rw [not_or] at hout
    have hdue : i ∈ l.due n := by simp [due, hn, live, hi, hout]
    exact absurd (h.ahead n i hdue s hs) (by omega)

section Edits

variable {l : Ledger}

theorem mem_due {n : Addr} {i : Installation} : i ∈ l.due n ↔
    ∃ g, l.registered n = some g ∧ i ∈ l.live g ∧ i.stamp ∉ l.returned n := by
  unfold due
  cases l.registered n <;> simp

theorem live_subset {g : Guid} {i : Installation} (hi : i ∈ l.live g) : i ∈ l.installed g :=
  (List.mem_filter.mp hi).1

theorem Ordered.stamp_inj (h : l.Ordered) {g : Guid} {i j : Installation}
    (hi : i ∈ l.installed g) (hj : j ∈ l.installed g) (heq : i.stamp = j.stamp) : i = j := by
  have hnodup : ((l.installed g).map (·.stamp)).Nodup :=
    List.pairwise_map.mpr ((h.sorted g).imp fun hlt => Nat.ne_of_lt hlt)
  exact List.inj_on_of_nodup_map hnodup hi hj heq

/-! ### Installing -/

theorem live_install (h : l.Ordered) (g g' : Guid) (p x : Addr) (i : Nat) :
    (l.install g p x i).live g' =
      if g' = g then l.live g ++ [⟨l.clock, p, x, i⟩] else l.live g' := by
  unfold live install
  dsimp only
  by_cases hg : g' = g
  · subst hg
    have hnew : l.clock ∉ l.removed g' := fun hm => Nat.lt_irrefl _ (h.removedPast g' _ hm)
    rw [if_pos rfl, Function.update_self, List.filter_append]
    simp [hnew]
  · rw [if_neg hg, Function.update_of_ne hg]

theorem due_install (h : l.Ordered) (g : Guid) (p x : Addr) (i : Nat) (n : Addr) :
    (l.install g p x i).due n =
      if l.registered n = some g then l.due n ++ [⟨l.clock, p, x, i⟩] else l.due n := by
  have hreg : (l.install g p x i).registered n = l.registered n := rfl
  have hret : (l.install g p x i).returned n = l.returned n := rfl
  unfold due
  rw [hreg, hret]
  cases hn : l.registered n with
  | none => simp
  | some g' =>
    dsimp only
    rw [live_install h]
    by_cases hg : g' = g
    · subst hg
      have hnew : l.clock ∉ l.returned n := fun hm => Nat.lt_irrefl _ (h.returnedPast n _ hm)
      rw [if_pos rfl, if_pos rfl, List.filter_append]
      simp [hnew]
    · rw [if_neg hg, if_neg (by simpa using hg)]

theorem Ordered.install (h : l.Ordered) (g : Guid) (p x : Addr) (i : Nat) :
    (l.install g p x i).Ordered := by
  have hmem : ∀ g' j, j ∈ (l.install g p x i).installed g' →
      j ∈ l.installed g' ∨ j.stamp = l.clock := by
    intro g' j hj
    by_cases hg : g' = g
    · subst hg
      simp only [Ledger.install, Function.update_self, List.mem_append, List.mem_singleton] at hj
      exact hj.imp id fun heq => by rw [heq]
    · simp only [Ledger.install, Function.update_of_ne hg] at hj
      exact .inl hj
  refine ⟨?_, ?_, ?_, ?_, h.inOrder, ?_, ?_⟩
  · intro g'
    by_cases hg : g' = g
    · subst hg
      simp only [Ledger.install, Function.update_self]
      refine List.pairwise_append.mpr ⟨h.sorted g', List.pairwise_singleton _ _, ?_⟩
      intro j hj k hk
      rw [List.mem_singleton.mp hk]
      exact h.past g' j hj
    · simp only [Ledger.install, Function.update_of_ne hg]
      exact h.sorted g'
  · intro g' j hj
    show j.stamp < l.clock + 1
    obtain hold | hnew := hmem g' j hj
    · exact Nat.lt_succ_of_lt (h.past g' j hold)
    · omega
  · exact fun g' s hs => Nat.lt_succ_of_lt (h.removedPast g' s hs)
  · exact fun n s hs => Nat.lt_succ_of_lt (h.returnedPast n s hs)
  · intro n j hj s hs
    rw [due_install h] at hj
    split at hj
    · obtain hold | hnew := List.mem_append.mp hj
      · exact h.ahead n j hold s hs
      · rw [List.mem_singleton.mp hnew]
        exact h.returnedPast n s hs
    · exact h.ahead n j hj s hs
  · intro n g' hn s hs
    obtain ⟨j, hj, hstamp⟩ := h.given n g' hn s hs
    refine ⟨j, ?_, hstamp⟩
    by_cases hg : g' = g
    · subst hg
      simp only [Ledger.install, Function.update_self]
      exact List.mem_append_left _ hj
    · simpa only [Ledger.install, Function.update_of_ne hg] using hj

/-! ### Uninstalling -/

theorem live_uninstall (h : l.Ordered) (g g' : Guid) (p : Addr) :
    (l.uninstall g p).live g' =
      if g' = g then (l.live g).filter (·.record ≠ p) else l.live g' := by
  by_cases hg : g' = g
  · subst hg
    rw [if_pos rfl]
    have hstep : (l.uninstall g' p).live g' = (l.live g').filter
        (·.stamp ∉ ((l.live g').filter (·.record = p)).map (·.stamp)) := by
      simp only [live, uninstall, Function.update_self, List.filter_filter]
      congr 1
      funext i
      simp [Bool.and_comm]
    rw [hstep]
    apply List.filter_congr
    intro i hi
    -- a stamp belongs to one installation
    have honly : i.stamp ∈ ((l.live g').filter (·.record = p)).map (·.stamp) ↔ i.record = p := by
      rw [List.mem_map]
      constructor
      · rintro ⟨j, hj, heq⟩
        have hj' := List.mem_filter.mp hj
        rw [← h.stamp_inj (live_subset hj'.1) (live_subset hi) heq]
        simpa using hj'.2
      · intro hp
        exact ⟨i, List.mem_filter.mpr ⟨hi, by simpa using hp⟩, rfl⟩
    simp only [honly, ne_eq]
  · rw [if_neg hg]
    simp only [live, uninstall, Function.update_of_ne hg]

theorem due_uninstall (h : l.Ordered) (g : Guid) (p n : Addr) :
    (l.uninstall g p).due n =
      if l.registered n = some g then (l.due n).filter (·.record ≠ p) else l.due n := by
  have hreg : (l.uninstall g p).registered n = l.registered n := rfl
  have hret : (l.uninstall g p).returned n = l.returned n := rfl
  unfold due
  rw [hreg, hret]
  cases hn : l.registered n with
  | none => simp
  | some g' =>
    dsimp only
    rw [live_uninstall h]
    by_cases hg : g' = g
    · subst hg
      rw [if_pos rfl, if_pos rfl, List.filter_filter, List.filter_filter]
      congr 1
      funext i
      exact Bool.and_comm _ _
    · rw [if_neg hg, if_neg (by simpa using hg)]

theorem Ordered.uninstall (h : l.Ordered) (g : Guid) (p : Addr) : (l.uninstall g p).Ordered := by
  refine ⟨h.sorted, h.past, ?_, h.returnedPast, h.inOrder, ?_, h.given⟩
  · intro g' s hs
    by_cases hg : g' = g
    · subst hg
      simp only [Ledger.uninstall, Function.update_self, List.mem_append] at hs
      obtain hold | hnew := hs
      · exact h.removedPast g' s hold
      · obtain ⟨i, hi, rfl⟩ := List.mem_map.mp hnew
        exact h.past g' i (live_subset (List.mem_filter.mp hi).1)
    · simp only [Ledger.uninstall, Function.update_of_ne hg] at hs
      exact h.removedPast g' s hs
  · intro n i hi s hs
    refine h.ahead n i ?_ s hs
    rw [due_uninstall h] at hi
    split at hi
    · exact (List.mem_filter.mp hi).1
    · exact hi

/-! ### Registering -/

theorem due_register (l : Ledger) (g : Guid) (n n' : Addr) :
    (l.register g n).due n' = if n' = n then l.live g else l.due n' := by
  have hlive : (l.register g n).live = l.live := rfl
  unfold due
  rw [hlive]
  by_cases hn : n' = n
  · subst hn
    rw [if_pos rfl]
    simp [register]
  · rw [if_neg hn]
    simp only [register, Function.update_of_ne hn]

theorem Ordered.register (h : l.Ordered) (g : Guid) (n : Addr) : (l.register g n).Ordered := by
  have hret : ∀ n', ∀ s ∈ (l.register g n).returned n', n' ≠ n ∧ s ∈ l.returned n' := by
    intro n' s hs
    by_cases hn : n' = n
    · subst hn
      simp [Ledger.register] at hs
    · simp only [Ledger.register, Function.update_of_ne hn] at hs
      exact ⟨hn, hs⟩
  refine ⟨h.sorted, h.past, h.removedPast, ?_, ?_, ?_, ?_⟩
  · exact fun n' s hs => h.returnedPast n' s (hret n' s hs).2
  · intro n'
    by_cases hn : n' = n
    · subst hn
      simp [Ledger.register]
    · simp only [Ledger.register, Function.update_of_ne hn]
      exact h.inOrder n'
  · intro n' i hi s hs
    obtain ⟨hn, hs⟩ := hret n' s hs
    rw [due_register, if_neg hn] at hi
    exact h.ahead n' i hi s hs
  · intro n' g' hn' s hs
    obtain ⟨hn, hs⟩ := hret n' s hs
    simp only [Ledger.register, Function.update_of_ne hn] at hn'
    exact h.given n' g' hn' s hs

/-! ### Returning -/

theorem Ordered.due_sorted (h : l.Ordered) (n : Addr) :
    (l.due n).Pairwise fun i j => i.stamp < j.stamp := by
  unfold due
  cases l.registered n with
  | none => exact List.Pairwise.nil
  | some g => exact ((h.sorted g).filter _).filter _

theorem due_giveNext (h : l.Ordered) (n n' : Addr) :
    (l.giveNext n).due n' = if n' = n then (l.due n).tail else l.due n' := by
  by_cases hn : n' = n
  · subst hn
    rw [if_pos rfl]
    have hstep : (l.giveNext n').due n' =
        (l.due n').filter (·.stamp ∉ ((l.due n').head?.map (·.stamp)).toList) := by
      have hret : (l.giveNext n').returned n' =
          l.returned n' ++ ((l.due n').head?.map (·.stamp)).toList := by
        simp only [giveNext, Function.update_self]
      generalize ((l.due n').head?.map (·.stamp)).toList = new at hret
      have hreg : (l.giveNext n').registered n' = l.registered n' := rfl
      have hlive : (l.giveNext n').live = l.live := rfl
      unfold due
      rw [hreg, hlive, hret]
      cases l.registered n' with
      | none => rfl
      | some g =>
        dsimp only
        rw [List.filter_filter]
        congr 1
        funext i
        simp [Bool.and_comm]
    rw [hstep]
    have hsorted := h.due_sorted n'
    cases hdue : l.due n' with
    | nil => rfl
    | cons i rest =>
      rw [hdue] at hsorted
      have hrest : ∀ j ∈ rest, j.stamp ≠ i.stamp := fun j hj =>
        Nat.ne_of_gt ((List.pairwise_cons.mp hsorted).1 j hj)
      rw [List.filter_cons_of_neg (by simp)]
      exact List.filter_eq_self.mpr fun j hj => by simpa using hrest j hj
  · rw [if_neg hn]
    unfold due
    simp only [giveNext, Function.update_of_ne hn]
    rfl

theorem Ordered.giveNext (h : l.Ordered) (n : Addr) : (l.giveNext n).Ordered := by
  have hmem : ∀ n' s, s ∈ (l.giveNext n).returned n' →
      s ∈ l.returned n' ∨ (n' = n ∧ ∃ i rest, l.due n = i :: rest ∧ s = i.stamp) := by
    intro n' s hs
    by_cases hn : n' = n
    · subst hn
      simp only [Ledger.giveNext, Function.update_self, List.mem_append] at hs
      refine hs.imp id fun hs => ⟨rfl, ?_⟩
      cases hdue : l.due n' with
      | nil => simp [hdue] at hs
      | cons i rest => exact ⟨i, rest, rfl, by simpa [hdue] using hs⟩
    · simp only [Ledger.giveNext, Function.update_of_ne hn] at hs
      exact .inl hs
  have hin : ∀ i rest, l.due n = i :: rest → i ∈ l.due n := fun i rest hdue => by simp [hdue]
  refine ⟨h.sorted, h.past, h.removedPast, ?_, ?_, ?_, ?_⟩
  · intro n' s hs
    obtain hold | ⟨rfl, i, rest, hdue, rfl⟩ := hmem n' s hs
    · exact h.returnedPast n' s hold
    · obtain ⟨g, _, hlive, _⟩ := mem_due.mp (hin i rest hdue)
      exact h.past g i (live_subset hlive)
  · intro n'
    by_cases hn : n' = n
    · subst hn
      simp only [Ledger.giveNext, Function.update_self]
      refine List.pairwise_append.mpr ⟨h.inOrder n', ?_, ?_⟩
      · cases (l.due n').head? <;> simp
      · intro s hs t ht
        cases hdue : l.due n' with
        | nil => simp [hdue] at ht
        | cons i rest =>
          have hti : t = i.stamp := by simpa [hdue] using ht
          rw [hti]
          exact h.ahead n' i (hin i rest hdue) s hs
    · simp only [Ledger.giveNext, Function.update_of_ne hn]
      exact h.inOrder n'
  · intro n' j hj s hs
    rw [due_giveNext h] at hj
    split at hj
    · rename_i hn
      subst hn
      obtain hold | ⟨_, i, rest, hdue, rfl⟩ := hmem n' s hs
      · exact h.ahead n' j (List.mem_of_mem_tail hj) s hold
      · have hsorted := h.due_sorted n'
        rw [hdue] at hj hsorted
        exact (List.pairwise_cons.mp hsorted).1 j hj
    · rename_i hn
      obtain hold | ⟨heq, _⟩ := hmem n' s hs
      · exact h.ahead n' j hj s hold
      · exact absurd heq hn
  · intro n' g hn' s hs
    obtain hold | ⟨rfl, i, rest, hdue, rfl⟩ := hmem n' s hs
    · exact h.given n' g hn' s hold
    · obtain ⟨g', hg', hlive, _⟩ := mem_due.mp (hin i rest hdue)
      have hgg : g' = g := Option.some.inj (hg'.symm.trans hn')
      subst hgg
      exact ⟨i, live_subset hlive, rfl⟩

end Edits

theorem Ordered.record {l : Ledger} (h : l.Ordered) (e : Event) : (l.record e).Ordered := by
  unfold Ledger.record
  split
  · exact h.install ..
  · exact h.uninstall ..
  · exact (h.uninstall ..).install ..
  · exact h.register ..
  · exact h.giveNext _
  · exact h.giveNext _
  · exact h

end Ledger

end EfiCore.Hand
