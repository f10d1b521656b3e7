import EfiCore.Hand.Multiple

/-! # Uninstalling several protocols at once

`UninstallMultipleProtocolInterfaces` of `handle.c`.  After an error it installs again what it has
removed, but it cannot bring back a handle that went with its last protocol.
-/

namespace EfiCore.Hand

variable {A : Arch}

namespace Database

/-- The loop of `UninstallMultipleProtocolInterfaces` that removes, with `Index`. -/
def removePairs (D : Drivers A) (fuel : Nat) (handle : Addr) :
    Nat → List Pair → Database A → Option (Database A × Status × Nat)
  | index, [], db => some (db, .success, index)
  | index, (g, i) :: pairs, db =>
    match db.uninstallProtocolInterface D fuel handle (some g) i with
    | none => none
    | some (db, .success) => removePairs D fuel handle (index + 1) pairs db
    | some (db, status) => some (db, status, index)

/-- Its loop that installs the first `index` pairs again; `turn` counts its rounds. -/
def reinstallPairs (alloc : Nat → Database A → InstallPool) :
    Nat → Nat → List Pair → Database A → Addr → Database A
  | _, 0, _, db, _ => db
  | _, _ + 1, [], db, _ => db
  | turn, index + 1, (g, i) :: pairs, db, handle =>
    let (db, _, newHandle) :=
      db.installProtocolInterface (alloc turn db) (some handle) (some g) .native i
    reinstallPairs alloc (turn + 1) index pairs db (newHandle.getD handle)

/-- `UninstallMultipleProtocolInterfaces` -/
def uninstallMultipleProtocolInterfaces (db : Database A) (D : Drivers A) (fuel : Nat)
    (alloc : Nat → Database A → InstallPool) (handle : Addr) (pairs : List Pair) :
    Option (Database A × Status) :=
  match db.removePairs D fuel handle 0 pairs with
  | none => none
  | some (db, .success, _) => some (db, .success)
  | some (db, status, index) => some (db.reinstallPairs alloc 0 index pairs handle, status)

end Database

/-- Drivers get at the database through its services only, which keep it in order. -/
structure Drivers.KeepWellFormed (D : Drivers A) : Prop where
  disconnect : ∀ db h a, db.WellFormed → (D.disconnectController db h a).1.WellFormed
  connect : ∀ db h, db.WellFormed → (D.connectController db h).WellFormed

theorem Drivers.idle_keepWellFormed (A : Arch) : (Drivers.idle A).KeepWellFormed :=
  ⟨fun _ _ _ h => h, fun _ _ h => h⟩

theorem Catalogue.mem_triples_add {c : Catalogue} {g : Guid} {h : Addr} {i : Nat}
    (hnew : ¬ c.Carries h g) (t : Addr × Guid × Nat) :
    t ∈ (c.add g h i hnew).triples ↔ t ∈ c.triples ∨ t = (h, g, i) := by
  obtain ⟨b, g', i'⟩ := t
  show (b, i') ∈ Function.update c.installed g (c.installed g ++ [(h, i)]) g' ↔
    (b, i') ∈ c.installed g' ∨ _
  by_cases hg : g' = g
  · subst hg
    rw [Function.update_self, List.mem_append, List.mem_singleton]
    simp
  · rw [Function.update_of_ne hg]
    simp [hg]

theorem Catalogue.mem_triples_remove (c : Catalogue) (g : Guid) (h : Addr)
    (t : Addr × Guid × Nat) :
    t ∈ (c.remove g h).triples ↔ t ∈ c.triples ∧ ¬ (t.1 = h ∧ t.2.1 = g) := by
  obtain ⟨b, g', i'⟩ := t
  show (b, i') ∈ Function.update c.installed g ((c.installed g).filter (·.1 ≠ h)) g' ↔
    (b, i') ∈ c.installed g' ∧ _
  by_cases hg : g' = g
  · subst hg
    rw [Function.update_self, List.mem_filter]
    simp
  · rw [Function.update_of_ne hg]
    simp [hg]

namespace Database

variable {db db' : Database A} {c : Catalogue} {D : Drivers A} {fuel : Nat}

/-! ## UninstallProtocolInterface -/

theorem WellFormed.disconnectDrivers (hD : D.KeepWellFormed) (h : db.WellFormed) (a p : Addr)
    {r : Database A × Status} (hr : disconnectDrivers D a p fuel db = some r) :
    r.1.WellFormed := by
  induction fuel generalizing db with
  | zero => cases hr
  | succ fuel ih =>
    unfold Database.disconnectDrivers at hr
    split at hr
    · cases hr
      exact h
    · rename_i o _
      have hcall := hD.disconnect db a o.agentHandle h
      split at hr
      · rename_i heq
        rw [heq] at hcall
        exact ih hcall hr
      · rename_i heq
        rw [heq] at hcall
        cases hr
        exact hcall

theorem WellFormed.disconnectControllers (hD : D.KeepWellFormed) (h : db.WellFormed) (a p : Addr)
    {r : Database A × Status}
    (hr : db.disconnectControllersUsingProtocolInterface D fuel a p = some r) :
    r.1.WellFormed := by
  unfold Database.disconnectControllersUsingProtocolInterface at hr
  split at hr
  · cases hr
  · rename_i db₁ heq
    have hclosed : (db₁.closePassive p).WellFormed :=
      ((h.disconnectDrivers hD a p heq).lists.closePassive p).wellFormed
    dsimp only at hr
    split at hr
    · split at hr
      · cases hr
        exact hD.connect _ a hclosed
      · cases hr
        exact hclosed
    · cases hr
      exact hclosed
  · rename_i heq
    cases hr
    exact h.disconnectDrivers hD a p heq

/-- A handle of a database in order has a protocol. -/
theorem WellFormed.freeHandleIfEmpty_eq (h : db.WellFormed) (a : Addr) :
    db.freeHandleIfEmpty a = db := by
  unfold Database.freeHandleIfEmpty
  split
  · rename_i handle ha
    rw [if_neg (h.inUse a handle ha)]
  · rfl

theorem WellFormed.touchHandle (h : db.WellFormed) (a : Addr) : (db.touchHandle a).WellFormed := by
  have hkey : ({ db with handleDatabaseKey := db.handleDatabaseKey + 1 } : Database A).WellFormed :=
    h.congr rfl rfl rfl rfl rfl
  exact hkey.modifyHandle a fun _ => rfl

theorem WellFormed.uninstallUnused (h : db.WellFormed) (a : Addr) (g : Guid) (i : Nat) :
    (db.uninstallUnused a g i).1.WellFormed := by
  cases hfind : db.findProtocolInterface a g i with
  | some p =>
    have hholds := (h.findProtocolInterface a g i p).mp hfind
    exact (h.lists.uninstallUnused hholds).2.1.wellFormed
  | none =>
    have hremove : db.removeInterfaceFromProtocol a g i = (db, none) := by
      rw [Database.removeInterfaceFromProtocol, hfind]
    rw [Database.uninstallUnused, hremove]
    dsimp only
    rw [(h.touchHandle a).freeHandleIfEmpty_eq]
    exact h.touchHandle a

theorem WellFormed.uninstallProtocolInterface (hD : D.KeepWellFormed) (h : db.WellFormed)
    {a : Addr} {g : Guid} {i : Nat} {status : Status}
    (hr : db.uninstallProtocolInterface D fuel a (some g) i = some (db', status)) :
    db'.WellFormed := by
  unfold Database.uninstallProtocolInterface at hr
  dsimp only at hr
  split at hr
  · split at hr
    · cases hr
      exact h
    · rename_i p _
      split at hr
      · cases hr
      · rename_i db₁ heq
        have hunused := (h.disconnectControllers hD a p heq).uninstallUnused a g i
        rw [Option.some.inj hr] at hunused
        exact hunused
      · rename_i heq
        cases hr
        exact h.disconnectControllers hD a p heq
  · cases hr
    exact h

/-! ## Where the call stops -/

/-- The pairs `removed` are uninstalled one after the other, and then `next` is refused. -/
inductive StopsAfter (D : Drivers A) (fuel : Nat) (a : Addr) (next : Pair) :
    Database A → List Pair → Database A → Status → Prop
  | refused {db db' : Database A} {status : Status} :
      db.uninstallProtocolInterface D fuel a (some next.1) next.2 = some (db', status) →
      status ≠ .success → StopsAfter D fuel a next db [] db' status
  | removed {db db₁ db' : Database A} {g : Guid} {i : Nat} {removed : List Pair}
      {status : Status} :
      db.uninstallProtocolInterface D fuel a (some g) i = some (db₁, .success) →
      StopsAfter D fuel a next db₁ removed db' status →
      StopsAfter D fuel a next db ((g, i) :: removed) db' status

theorem removePairs_refused {a : Addr} {g : Guid} {i : Nat} {status : Status}
    (hcall : db.uninstallProtocolInterface D fuel a (some g) i = some (db', status))
    (hne : status ≠ .success) (index : Nat) (pairs : List Pair) :
    db.removePairs D fuel a index ((g, i) :: pairs) = some (db', status, index) := by
  rw [removePairs, hcall]
  cases status with
  | success => exact absurd rfl hne
  | _ => rfl

/-- The first pair of the list is the one that is refused, or one that is uninstalled. -/
theorem StopsAfter.first {a : Addr} {g : Guid} {i : Nat} {next : Pair}
    {pairs removed rest : List Pair} {status : Status}
    (h : StopsAfter D fuel a next db removed db' status)
    (heq : (g, i) :: pairs = removed ++ next :: rest) :
    (removed = [] ∧ db.uninstallProtocolInterface D fuel a (some g) i = some (db', status)) ∨
      ∃ db₁ removed', removed = (g, i) :: removed' ∧ pairs = removed' ++ next :: rest ∧
        db.uninstallProtocolInterface D fuel a (some g) i = some (db₁, .success) ∧
        StopsAfter D fuel a next db₁ removed' db' status := by
  cases h with
  | refused hcall =>
    cases heq
    exact .inl ⟨rfl, hcall⟩
  | removed hcall hstops =>
    cases heq
    exact .inr ⟨_, _, rfl, rfl, hcall, hstops⟩

/-- The loop that removes reports an error where it stops. -/
theorem removePairs_eq_some_iff {a : Addr} {status : Status} (hstatus : status ≠ .success)
    (pairs : List Pair) (index n : Nat) :
    db.removePairs D fuel a index pairs = some (db', status, n) ↔
      ∃ removed next rest, pairs = removed ++ next :: rest ∧ n = index + removed.length ∧
        StopsAfter D fuel a next db removed db' status := by
  induction pairs generalizing index db with
  | nil =>
    rw [removePairs]
    constructor
    · rintro ⟨⟩
      exact absurd rfl hstatus
    · rintro ⟨removed, next, rest, heq, -⟩
      simp at heq
  | cons pair pairs ih =>
    obtain ⟨g, i⟩ := pair
    cases hcall : db.uninstallProtocolInterface D fuel a (some g) i with
    | none =>
      rw [removePairs, hcall]
      refine iff_of_false (by rintro ⟨⟩) ?_
      rintro ⟨_, next, rest, heq, -, hstops⟩
      obtain ⟨-, hcall'⟩ | ⟨_, _, -, -, hcall', -⟩ := hstops.first heq
      · rw [hcall] at hcall'
        cases hcall'
      · rw [hcall] at hcall'
        cases hcall'
    | some answer =>
      obtain ⟨db₁, status₁⟩ := answer
      by_cases hok : status₁ = .success
      · subst hok
        rw [removePairs, hcall]
        dsimp only
        rw [ih]
        constructor
        · rintro ⟨removed, next, rest, rfl, rfl, hstops⟩
          refine ⟨(g, i) :: removed, next, rest, rfl, ?_, .removed hcall hstops⟩
          rw [List.length_cons]
          omega
        · rintro ⟨_, next, rest, heq, rfl, hstops⟩
          obtain ⟨-, hcall'⟩ | ⟨_, removed, rfl, hpairs, hcall', hrest⟩ := hstops.first heq
          · rw [hcall] at hcall'
            cases hcall'
            exact absurd rfl hstatus
          · rw [hcall] at hcall'
            cases hcall'
            refine ⟨removed, next, rest, hpairs, ?_, hrest⟩
            rw [List.length_cons]
            omega
      · rw [removePairs_refused hcall hok]
        constructor
        · rintro ⟨⟩
          exact ⟨[], (g, i), pairs, rfl, rfl, .refused hcall hok⟩
        · rintro ⟨_, next, rest, heq, rfl, hstops⟩
          obtain ⟨rfl, hcall'⟩ | ⟨_, _, -, -, hcall', -⟩ := hstops.first heq
          · rw [hcall] at hcall'
            cases hcall'
            rfl
          · rw [hcall] at hcall'
            cases hcall'
            exact absurd rfl hok

theorem StopsAfter.status_ne {a : Addr} {next : Pair} {removed : List Pair} {status : Status}
    (hstops : StopsAfter D fuel a next db removed db' status) : status ≠ .success := by
  induction hstops with
  | refused _ hstatus => exact hstatus
  | removed _ _ ih => exact ih

theorem StopsAfter.wellFormed (hD : D.KeepWellFormed) {a : Addr} {next : Pair}
    {removed : List Pair} {status : Status}
    (hstops : StopsAfter D fuel a next db removed db' status) (h : db.WellFormed) :
    db'.WellFormed := by
  induction hstops with
  | refused hcall => exact h.uninstallProtocolInterface hD hcall
  | removed hcall _ ih => exact ih (h.uninstallProtocolInterface hD hcall)

/-! ## Installing again -/

/-- There is memory for what `InstallProtocolInterface` allocates to install `g` on a handle. -/
def HasMemory (pool : InstallPool) (g : Guid) (db : Database A) : Prop :=
  (db.findProtocolEntry g = none → pool.entry ≠ none) ∧ pool.interface ≠ none

/-- The pair is installed again: in its turn the handle does not carry the protocol, and there is
    memory. -/
def BroughtBack (alloc : Nat → Database A → InstallPool) (a : Addr) :
    Nat → List Pair → Database A → Pair → Prop
  | _, [], _, _ => False
  | turn, (g, i) :: pairs, db, pair =>
    (pair = (g, i) ∧ (∀ j, (a, g, j) ∉ db.triples) ∧ HasMemory (alloc turn db) g db) ∨
      BroughtBack alloc a (turn + 1) pairs
        (db.installProtocolInterface (alloc turn db) (some a) (some g) .native i).1 pair

/-- On a handle that does not carry the protocol only memory decides. -/
theorem Lists.install_success_iff (h : db.Lists c) (pool : InstallPool) {a : Addr} {g : Guid}
    (ha : c.Live a) (hnew : ¬ c.Carries a g) (i : Nat) :
    (db.installProtocolInterface pool (some a) (some g) .native i).2.1 = .success ↔
      HasMemory pool g db := by
  obtain ⟨handle, hhandle⟩ := (h.live a).mp ha
  have h0 : a ≠ 0 := by
    rintro rfl
    rw [h.wellFormed.null] at hhandle
    cases hhandle
  unfold Database.installProtocolInterface
  dsimp only
  rw [if_neg (by decide), if_neg h0, h.handleProtocol_unsupported ha hnew]
  unfold HasMemory Database.installLocked Database.findOrCreateEntry
  cases hfind : db.findProtocolEntry g with
  | none =>
    cases pool.entry with
    | none => simp [hfind]
    | some e =>
      cases pool.interface with
      | none => simp [hfind]
      | some p => simp [hfind, h0, createProtocolEntry, hhandle]
  | some e =>
    cases pool.interface with
    | none => simp [hfind]
    | some p => simp [hfind, h0, hhandle]

theorem Lists.carries_iff_triples (h : db.Lists c) (a : Addr) (g : Guid) :
    c.Carries a g ↔ ∃ j, (a, g, j) ∈ db.triples := by
  rw [h.carries]
  exact exists_comm

theorem BroughtBack.mem {alloc : Nat → Database A → InstallPool} {a : Addr} {todo : List Pair}
    {pair : Pair} {turn : Nat} (h : BroughtBack alloc a turn todo db pair) : pair ∈ todo := by
  induction todo generalizing db turn with
  | nil => exact h.elim
  | cons first todo ih =>
    obtain ⟨g, i⟩ := first
    obtain ⟨rfl, -⟩ | hlater := h
    · exact List.mem_cons_self
    · exact List.mem_cons_of_mem _ (ih hlater)

/-- One turn on a live handle. -/
theorem Lists.install_triples (h : db.Lists c) {pool : InstallPool} (hfresh : pool.Fresh db)
    {a : Addr} (ha : c.Live a) (g : Guid) (i : Nat) :
    (∃ c', (db.installProtocolInterface pool (some a) (some g) .native i).1.Lists c' ∧ c'.Live a) ∧
      (db.installProtocolInterface pool (some a) (some g) .native i).2.2 = some a ∧
      (db.installProtocolInterface pool (some a) (some g) .native i).1.triples =
        db.triples ∪ {t | t = (a, g, i) ∧ (∀ j, (a, g, j) ∉ db.triples) ∧ HasMemory pool g db} := by
  have hinstalled := h.installProtocolInterface hfresh a g i
  have hsuccess := fun hnew => h.install_success_iff (g := g) pool ha hnew i
  have h0 : a ≠ 0 := by
    rintro rfl
    obtain ⟨g', hg'⟩ := ha
    exact h.not_carries_null g' hg'
  cases hr : db.installProtocolInterface pool (some a) (some g) .native i with
  | mk db₁ answer =>
    obtain ⟨status, handle⟩ := answer
    rw [hr] at hinstalled
    simp only [hr] at hsuccess
    dsimp only at hinstalled ⊢
    cases hinstalled with
    | refused hstatus _ hsame =>
      have h₁ := hsame.lists c h
      refine ⟨⟨c, h₁, ha⟩, rfl, ?_⟩
      rw [h₁.triples, h.triples, eq_comm, Set.union_eq_left]
      rintro t ⟨-, hnew, hmemory⟩
      rw [← h.triples, ← not_exists, ← h.carries_iff_triples] at hnew
      exact absurd ((hsuccess hnew).mpr hmemory) hstatus
    | installed hnew hhandle hlists =>
      rename_i x p
      obtain ⟨h0', -⟩ | ⟨rfl, -⟩ := hhandle
      · exact absurd h0' h0
      have hmemory := (hsuccess hnew).mp rfl
      have hcarries : ∀ j, (a, g, j) ∉ db.triples := by
        rw [← not_exists, ← h.carries_iff_triples]
        exact hnew
      obtain ⟨g', hg'⟩ := ha
      refine ⟨⟨_, hlists, g', ?_⟩, rfl, ?_⟩
      · obtain ⟨j, hj⟩ := (h.carries_iff_triples a g').mp hg'
        rw [hlists.carries_iff_triples]
        refine ⟨j, ?_⟩
        rw [hlists.triples, Catalogue.mem_triples_add]
        rw [h.triples] at hj
        exact .inl hj
      · ext t
        rw [hlists.triples, Catalogue.mem_triples_add, ← h.triples]
        exact or_congr_right (by simp [hcarries, hmemory])

/-- What is brought back is not there before. -/
theorem BroughtBack.notMem {alloc : Nat → Database A → InstallPool}
    (hfresh : ∀ n db, (alloc n db).Fresh db) {a : Addr} {todo : List Pair} {pair : Pair}
    {turn : Nat} (hback : BroughtBack alloc a turn todo db pair) (h : db.Lists c)
    (ha : c.Live a) : (a, pair) ∉ db.triples := by
  induction todo generalizing c db turn with
  | nil => exact hback.elim
  | cons first todo ih =>
    obtain ⟨g, i⟩ := first
    obtain ⟨rfl, hnew, -⟩ | hlater := hback
    · exact hnew i
    · obtain ⟨⟨c₁, h₁, ha₁⟩, -, htriples⟩ := h.install_triples (hfresh turn db) ha g i
      have hnot := ih hlater h₁ ha₁
      rw [htriples] at hnot
      exact fun hmem => hnot (.inl hmem)

/-- On a live handle the loop adds the pairs that are brought back. -/
theorem Lists.reinstallPairs {alloc : Nat → Database A → InstallPool}
    (hfresh : ∀ n db, (alloc n db).Fresh db) {a : Addr} (todo : List Pair) (h : db.Lists c)
    (ha : c.Live a) (turn : Nat) (rest : List Pair) :
    (∃ c', (db.reinstallPairs alloc turn todo.length (todo ++ rest) a).Lists c' ∧ c'.Live a) ∧
      (db.reinstallPairs alloc turn todo.length (todo ++ rest) a).triples =
        db.triples ∪ {t | t.1 = a ∧ BroughtBack alloc a turn todo db t.2} := by
  induction todo generalizing c db turn with
  | nil =>
    have hnothing : db.reinstallPairs alloc turn 0 ([] ++ rest) a = db := by
      cases rest <;> rfl
    rw [List.length_nil, hnothing]
    refine ⟨⟨c, h, ha⟩, ?_⟩
    simp [BroughtBack]
  | cons pair todo ih =>
    obtain ⟨g, i⟩ := pair
    obtain ⟨⟨c₁, h₁, ha₁⟩, hhandle, htriples⟩ := h.install_triples (hfresh turn db) ha g i
    obtain ⟨hlive, hrest⟩ := ih h₁ ha₁ (turn + 1)
    rw [List.length_cons, List.cons_append, Database.reinstallPairs]
    dsimp only
    rw [hhandle, Option.getD_some]
    refine ⟨hlive, ?_⟩
    rw [hrest, htriples, Set.union_assoc]
    congr 1
    ext ⟨b, g', i'⟩
    simp only [BroughtBack, Set.mem_union, Set.mem_ofPred_eq, Prod.mk.injEq]
    tauto

/-- Nothing is installed on a handle that is gone. -/
theorem Lists.reinstallPairs_dead {alloc : Nat → Database A → InstallPool}
    (hfresh : ∀ n db, (alloc n db).Fresh db) {a : Addr} (h0 : a ≠ 0) (ha : ¬ c.Live a)
    (turn index : Nat) (pairs : List Pair) (h : db.Lists c) :
    (db.reinstallPairs alloc turn index pairs a).Lists c := by
  induction index generalizing db turn pairs with
  | zero => cases pairs <;> exact h
  | succ index ih =>
    cases pairs with
    | nil => exact h
    | cons pair pairs =>
      obtain ⟨g, i⟩ := pair
      have hinstalled := h.installProtocolInterface (hfresh turn db) a g i
      rw [Database.reinstallPairs]
      cases hr : db.installProtocolInterface (alloc turn db) (some a) (some g) .native i with
      | mk db₁ answer =>
        obtain ⟨status, handle⟩ := answer
        rw [hr] at hinstalled
        dsimp only at hinstalled ⊢
        cases hinstalled with
        | refused _ _ hsame => exact ih (turn + 1) pairs (hsame.lists c h)
        | installed hnew hhandle hlists hp hunused hrest =>
          obtain ⟨h0', -⟩ | ⟨heq, -, hlive, -⟩ := hhandle
          · exact absurd h0' h0
          · rw [← heq] at hlive
            exact absurd hlive ha

/-! ## UninstallMultipleProtocolInterfaces -/

/-- What an error is to leave: the triples as they were, and the handle valid. -/
def Undone (db : Database A) (a : Addr) (db' : Database A) : Prop :=
  db'.triples = db.triples ∧ db'.validateHandle a = .success

/-- Where the call stops in `db'`, with the pairs `removed` uninstalled: the drivers have, all in
    all, neither installed nor uninstalled anything beside them, the handle still carries a
    protocol, and what was there before is brought back, and nothing else. -/
structure Restorable (db : Database A) (alloc : Nat → Database A → InstallPool) (a : Addr)
    (removed : List Pair) (db' : Database A) : Prop where
  old : db'.triples ⊆ db.triples
  gone : ∀ t ∈ db.triples, t ∉ db'.triples → t.1 = a ∧ t.2 ∈ removed
  other : ∃ pair, (a, pair) ∈ db'.triples
  memory : ∀ pair ∈ removed, BroughtBack alloc a 0 removed db' pair ↔
    (a, pair) ∈ db.triples ∧ (a, pair) ∉ db'.triples

theorem StopsAfter.undone_iff (hD : D.KeepWellFormed) {alloc : Nat → Database A → InstallPool}
    (hfresh : ∀ n db, (alloc n db).Fresh db) (h : db.WellFormed) {a : Addr} (h0 : a ≠ 0)
    {next : Pair} {removed : List Pair} {status : Status}
    (hstops : StopsAfter D fuel a next db removed db' status) (rest : List Pair) :
    db.Undone a (db'.reinstallPairs alloc 0 removed.length (removed ++ rest) a) ↔
      db.Restorable alloc a removed db' := by
  have h' := (hstops.wellFormed hD h).lists
  generalize (hstops.wellFormed hD h).catalogue = c' at h'
  have hother : (∃ pair, (a, pair) ∈ db'.triples) ↔ c'.Live a := by
    simp only [Catalogue.Live, h'.carries_iff_triples, Prod.exists]
  by_cases hlive : c'.Live a
  · obtain ⟨⟨c'', h'', hlive''⟩, htriples⟩ := h'.reinstallPairs hfresh removed hlive 0 rest
    rw [Undone, and_iff_left (h''.validateHandle_live hlive''), htriples]
    constructor
    · intro heq
      have hback : ∀ t, t ∈ db.triples ↔ t ∈ db'.triples ∨
          t.1 = a ∧ BroughtBack alloc a 0 removed db' t.2 := fun t => by rw [← heq]; rfl
      refine ⟨fun t ht => (hback t).mpr (.inl ht), fun t ht hnot => ?_, hother.mpr hlive,
        fun pair _ => ⟨fun hpair => ⟨(hback _).mpr (.inr ⟨rfl, hpair⟩), hpair.notMem hfresh h' hlive⟩,
          fun ⟨ht, hnot⟩ => (((hback _).mp ht).resolve_left hnot).2⟩⟩
      obtain ⟨ha, hpair⟩ := ((hback t).mp ht).resolve_left hnot
      exact ⟨ha, hpair.mem⟩
    · intro hrestorable
      ext ⟨b, pair⟩
      constructor
      · rintro (ht | ⟨rfl, hpair⟩)
        · exact hrestorable.old ht
        · exact ((hrestorable.memory pair hpair.mem).mp hpair).1
      · intro ht
        by_cases hkept : (b, pair) ∈ db'.triples
        · exact .inl hkept
        · obtain ⟨rfl, hpair⟩ := hrestorable.gone _ ht hkept
          exact .inr ⟨rfl, (hrestorable.memory pair hpair).mpr ⟨ht, hkept⟩⟩
  · -- the handle has gone with its last protocol
    have hdead := Lists.reinstallPairs_dead hfresh h0 hlive 0 removed.length (removed ++ rest) h'
    refine iff_of_false ?_ fun hrestorable => hlive (hother.mp hrestorable.other)
    rintro ⟨-, hvalid⟩
    rw [hdead.validateHandle_dead hlive] at hvalid
    cases hvalid

/-- A call of `UninstallMultipleProtocolInterfaces` is undone after an error if and only if its
    drivers leave the triples alone, the handle still carries a protocol where it stops, and there
    is memory. -/
theorem uninstallMultipleProtocolInterfaces_undone_iff (hwf : db.WellFormed)
    (hD : D.KeepWellFormed) {alloc : Nat → Database A → InstallPool}
    (hfresh : ∀ n db, (alloc n db).Fresh db) {a : Addr} (ha : db.validateHandle a = .success)
    (pairs : List Pair) :
    (∀ db' status,
        db.uninstallMultipleProtocolInterfaces D fuel alloc a pairs = some (db', status) →
        status ≠ .success → db.Undone a db') ↔
      ∀ removed next rest db' status, pairs = removed ++ next :: rest →
        StopsAfter D fuel a next db removed db' status → db.Restorable alloc a removed db' := by
  have h0 : a ≠ 0 := by
    rintro rfl
    cases ha
  constructor
  · rintro hundone removed next rest db' status rfl hstops
    have hstatus : status ≠ .success := hstops.status_ne
    rw [← hstops.undone_iff hD hfresh hwf h0 (next :: rest)]
    refine hundone _ status ?_ hstatus
    rw [uninstallMultipleProtocolInterfaces,
      (removePairs_eq_some_iff hstatus _ 0 (0 + removed.length)).mpr
        ⟨removed, next, rest, rfl, rfl, hstops⟩, Nat.zero_add]
    cases status with
    | success => exact absurd rfl hstatus
    | _ => rfl
  · intro hrestorable db' status hcall hstatus
    rw [uninstallMultipleProtocolInterfaces] at hcall
    cases hremove : db.removePairs D fuel a 0 pairs with
    | none =>
      rw [hremove] at hcall
      cases hcall
    | some answer =>
      obtain ⟨db₁, status₁, index⟩ := answer
      rw [hremove] at hcall
      have hsame : status₁ = status := by
        cases status₁ <;> (cases hcall; rfl)
      subst hsame
      have hcall' : some (db₁.reinstallPairs alloc 0 index pairs a, status₁) =
          some (db', status₁) := by
        rw [← hcall]
        cases status₁ with
        | success => exact absurd rfl hstatus
        | _ => rfl
      cases hcall'
      obtain ⟨removed, next, rest, rfl, rfl, hstops⟩ :=
        (removePairs_eq_some_iff hstatus _ 0 index).mp hremove
      rw [Nat.zero_add, hstops.undone_iff hD hfresh hwf h0 (next :: rest)]
      exact hrestorable removed next rest db₁ status₁ rfl hstops

end Database

open EfiCore.DevPath

/-! ## A handle with one protocol, and with two -/

/-- Memory for one installation beside the controller. -/
def spare (A : Arch) (_ : Nat) (db : Database A) : InstallPool := takeFree 4 5 6 db

/-- The controller goes with its device path, and is not brought back. -/
theorem uninstallMultipleProtocolInterfaces_lastProtocol :
    (oneController .efi64).validateHandle 3 = .success ∧
      ∃ db', (oneController .efi64).uninstallMultipleProtocolInterfaces (Drivers.idle .efi64) 1
          (spare .efi64) 3 [(devicePathProtocol, 100), (1, 200)] = some (db', .invalidParameter) ∧
        ¬ (oneController .efi64).Undone 3 db' := by
  refine ⟨rfl, _, rfl, ?_⟩
  rintro ⟨-, hvalid⟩
  exact absurd hvalid (by decide)

/-- The controller with another protocol. -/
def twoProtocols (A : Arch) : Database A :=
  ((oneController A).installProtocolInterface ⟨some 4, some 5, some 6⟩ (some 3) (some 1) .native
    200).1

theorem twoProtocols_wellFormed : (twoProtocols .efi64).WellFormed := by
  obtain ⟨c, hshows⟩ := oneController_shows .efi64
  have hfresh : ∀ a ∈ [4, 5, 6], (oneController .efi64).Fresh a := by
    intro a ha
    simp only [List.mem_cons, List.not_mem_nil, or_false] at ha
    obtain rfl | rfl | rfl := ha
    all_goals exact ⟨by decide, rfl, rfl, rfl, rfl⟩
  obtain ⟨c', -, hshows'⟩ := hshows.install (.distinct (hfresh 4 (by simp)) (hfresh 5 (by simp))
    (hfresh 6 (by simp)) (by decide) (by decide) (by decide)) (some 3) (some 1) .native 200
  exact hshows'.wellFormed

/-- Without the second protocol the device path is left. -/
theorem twoProtocols_restorable :
    (twoProtocols .efi64).Restorable (fun _ => takeFree 7 8 9) 3 [(1, 200)]
      (((twoProtocols .efi64).closePassive 5).uninstallUnused 3 1 200).1 := by
  have hlists := twoProtocols_wellFormed.lists
  have hholds : (twoProtocols .efi64).Holds 5 3 1 200 := ⟨_, _, rfl, rfl, rfl, rfl, rfl⟩
  have hpath : (twoProtocols .efi64).Holds 2 3 devicePathProtocol 100 :=
    ⟨_, _, rfl, rfl, rfl, rfl, rfl⟩
  obtain ⟨-, hlists', -⟩ := (hlists.closePassive 5).uninstallUnused
    (show ((twoProtocols .efi64).closePassive 5).Holds 5 3 1 200 from ⟨_, _, rfl, rfl, rfl, rfl, rfl⟩)
  have hmem : ∀ t, t ∈ (((twoProtocols .efi64).closePassive 5).uninstallUnused 3 1 200).1.triples ↔
      t ∈ (twoProtocols .efi64).triples ∧ ¬ (t.1 = 3 ∧ t.2.1 = 1) := fun t => by
    rw [hlists'.triples, Catalogue.mem_triples_remove, hlists.triples]
  refine ⟨fun t ht => ((hmem t).mp ht).1, fun t ht hnot => ?_, ⟨(devicePathProtocol, 100), ?_⟩, ?_⟩
  · obtain ⟨b, g, i⟩ := t
    rw [hmem, not_and_not_right] at hnot
    obtain ⟨rfl, rfl⟩ := hnot ht
    obtain ⟨p, hp⟩ := ht
    obtain ⟨-, rfl⟩ := twoProtocols_wellFormed.holds_unique hp hholds
    exact ⟨rfl, List.mem_singleton_self _⟩
  · exact (hmem _).mpr ⟨⟨2, hpath⟩, by decide⟩
  · intro pair hpair
    obtain rfl := List.mem_singleton.mp hpair
    refine iff_of_true (.inl ⟨rfl, fun j hj => ?_, ⟨by decide, by decide⟩⟩) ⟨⟨5, hholds⟩, fun hin => ?_⟩
    · exact ((hmem _).mp hj).2 ⟨rfl, rfl⟩
    · exact ((hmem _).mp hin).2 ⟨rfl, rfl⟩

/-- The second protocol is removed, the third is unknown: the second is installed again. -/
theorem uninstallMultipleProtocolInterfaces_otherProtocol :
    ∃ db', (twoProtocols .efi64).uninstallMultipleProtocolInterfaces (Drivers.idle .efi64) 1
        (fun _ => takeFree 7 8 9) 3 [(1, 200), (2, 300)] = some (db', .notFound) ∧
      (twoProtocols .efi64).Undone 3 db' := by
  have hfresh : ∀ (_ : Nat) (db : Database .efi64), (takeFree 7 8 9 db).Fresh db := fun _ =>
    takeFree_fresh (by decide) (by decide) (by decide) (by decide) (by decide) (by decide)
  have hvalid : (twoProtocols .efi64).validateHandle 3 = .success := rfl
  have hcall : (twoProtocols .efi64).uninstallMultipleProtocolInterfaces (Drivers.idle .efi64) 1
      (fun _ => takeFree 7 8 9) 3 [(1, 200), (2, 300)] = some (_, .notFound) := rfl
  refine ⟨_, hcall, (Database.uninstallMultipleProtocolInterfaces_undone_iff twoProtocols_wellFormed
    (Drivers.idle_keepWellFormed .efi64) hfresh hvalid [(1, 200), (2, 300)]).mpr ?_ _ _ hcall
    (by decide)⟩
  have hfirst : (twoProtocols .efi64).uninstallProtocolInterface (Drivers.idle .efi64) 1 3
      (some 1) 200 = some ((((twoProtocols .efi64).closePassive 5).uninstallUnused 3 1 200).1,
        .success) := rfl
  intro removed next rest db' status heq hstops
  cases hstops with
  | refused hcall hstatus =>
    obtain ⟨rfl, -⟩ := List.cons.inj heq
    rw [hfirst] at hcall
    cases hcall
    exact absurd rfl hstatus
  | removed hcall hstops =>
    obtain ⟨hpair, hrest⟩ := List.cons.inj heq
    cases hpair
    rw [hfirst] at hcall
    cases hcall
    cases hstops with
    | refused hcall' hstatus =>
      cases hrest
      have hdb' := (show Database.uninstallProtocolInterface _ (Drivers.idle .efi64) 1 3
        (some 2) 300 = some _ from rfl).symm.trans hcall'
      cases hdb'
      exact twoProtocols_restorable
    | removed hcall' hstops' =>
      have hlength := congrArg List.length hrest
      simp at hlength

end EfiCore.Hand
