import EfiCore.DevPath.Locate
import EfiCore.Lib.Ensures

/-! # Installing several protocols at once

`InstallMultipleProtocolInterfaces` of `handle.c`.  What is allocated in turn `n` of its loop is
`alloc n`; what lies in memory at a device path is `paths`.  The list of the arguments ends where
the C finds a `NULL` protocol.
-/

namespace EfiCore.Hand

open EfiCore.DevPath EfiCore.Lib

variable {A : Arch}

/-- `IsDevicePathEnd` -/
def isDevicePathEnd (mem : List Byte) (devPath : Nat) : Except Fault Bool := do
  if isDevicePathEndType (← readByte mem devPath) then
    return (← readByte mem (devPath + 1)) = endEntireDevicePathSubtype
  return false

/-- A protocol and an interface in the list of the arguments. -/
abbrev Pair := Guid × Nat

namespace Database

/-- The loop of `InstallMultipleProtocolInterfaces` that looks for a device path that is there
    already.  It ends with the first path that `LocateDevicePath` has no answer for. -/
def checkDevicePaths (memory : Nat → List Bool) (paths : Addr → List Byte) :
    Nat → List Pair → Database A → Except Fault (Database A × Bool)
  | _, [], db => .ok (db, false)
  | index, (g, i) :: pairs, db =>
    if g = devicePathProtocol then
      -- a `NULL` path has no instance
      if i = 0 then .ok (db, false)
      else do
        let (db, status, size, device) ←
          locateDevicePath db (memory index) paths devicePathProtocol (paths i)
        if status = .success then
          if device ≠ 0 then
            if ← isDevicePathEnd (paths i) size then return (db, true)
          checkDevicePaths memory paths (index + 1) pairs db
        else return (db, false)
    else checkDevicePaths memory paths (index + 1) pairs db

/-- The loop of `InstallMultipleProtocolInterfaces` that installs; with the status `Index` and
    `*Handle`. -/
def installPairs (alloc : Nat → Database A → InstallPool) :
    Nat → List Pair → Database A → Addr → Database A × Status × Nat × Addr
  | index, [], db, handle => (db, .success, index, handle)
  | index, (g, i) :: pairs, db, handle =>
    match db.installProtocolInterface (alloc index db) (some handle) (some g) .native i with
    | (db, .success, some handle) => installPairs alloc (index + 1) pairs db handle
    | (db, status, _) => (db, status, index, handle)

/-- The loop of `InstallMultipleProtocolInterfaces` that takes back the first `index` pairs. -/
def uninstallPairs (D : Drivers A) (fuel : Nat) (handle : Addr) :
    Nat → List Pair → Database A → Option (Database A)
  | 0, _, db => some db
  | _ + 1, [], db => some db
  | index + 1, (g, i) :: pairs, db =>
    match db.uninstallProtocolInterface D fuel handle (some g) i with
    | none => none
    | some (db, _) => uninstallPairs D fuel handle index pairs db

/-- `InstallMultipleProtocolInterfaces`, with `*Handle` afterwards. -/
def installMultipleProtocolInterfaces (db : Database A) (D : Drivers A) (fuel : Nat)
    (alloc : Nat → Database A → InstallPool) (memory : Nat → List Bool)
    (paths : Addr → List Byte) (handle : Addr) (pairs : List Pair) :
    Except Fault (Database A × Status × Addr) := do
  let (db, started) ← db.checkDevicePaths memory paths 0 pairs
  if started then return (db, .alreadyStarted, handle)
  match db.installPairs alloc 0 pairs handle with
  | (db, .success, _, newHandle) => return (db, .success, newHandle)
  | (db, status, index, newHandle) =>
    match db.uninstallPairs D fuel newHandle index pairs with
    | none => .error .hang
    | some db => return (db, status, handle)

/-! ## The device paths -/

theorem matchHandles_same {paths : Addr → List Byte} {source : List Byte} {sourceSize : Nat}
    (handles : List Addr) {db : Database A} {c : Catalogue} (h : db.Lists c) (best : BestMatch) :
    Ensures (matchHandles paths source sourceSize handles db best) fun r =>
      SameContents db r.1 := by
  induction handles generalizing db best with
  | nil => exact .ok (.refl db)
  | cons handle handles ih =>
    obtain ⟨hsame, -⟩ := devicePathFromHandle_spec h handle
    rw [matchHandles]
    cases hr : devicePathFromHandle db handle with
    | mk db' devicePath =>
      rw [hr] at hsame
      have h' := hsame.lists c h
      have hrest := fun best => (ih h' best).mono fun r hr => hsame.trans hr
      cases devicePath with
      | none => exact hrest best
      | some i => exact .bind (.self _) fun best' _ => hrest best'

/-- Whatever it answers, `LocateDevicePath` moves no interface. -/
theorem locateDevicePath_same {db : Database A} {c : Catalogue} (h : db.Lists c)
    (memory : List Bool) (paths : Addr → List Byte) (g : Guid) (source : List Byte) :
    Ensures (locateDevicePath db memory paths g source) fun r => SameContents db r.1 := by
  have hsame : SameContents db (libLocateHandle db .byProtocol (some g) none memory).1 :=
    growLocate_same _ _ _ memory db _
  rw [locateDevicePath]
  refine .bind (.self _) fun count _ => .ite (fun _ => .ok (.refl db)) fun _ => ?_
  refine .bind (.self _) fun size _ => ?_
  refine .bind (matchHandles_same _ (hsame.lists c h) _) fun r hr => ?_
  exact .ite (fun _ => .ok (hsame.trans hr)) fun _ => .ok (hsame.trans hr)

theorem checkDevicePaths_same (memory : Nat → List Bool) (paths : Addr → List Byte)
    (pairs : List Pair) (index : Nat) {db : Database A} {c : Catalogue} (h : db.Lists c) :
    Ensures (db.checkDevicePaths memory paths index pairs) fun r => SameContents db r.1 := by
  induction pairs generalizing index db with
  | nil => exact .ok (.refl db)
  | cons pair pairs ih =>
    rw [checkDevicePaths]
    refine .ite (fun _ => ?_) fun _ => ih (index + 1) h
    refine .ite (fun _ => .ok (.refl db)) fun _ => ?_
    refine .bind (locateDevicePath_same h (memory index) paths _ _) fun r hsame => ?_
    have hrest := (ih (index + 1) (hsame.lists c h)).mono fun r' hr' => hsame.trans hr'
    refine .ite (fun _ => .ite (fun _ => ?_) fun _ => hrest) fun _ => .ok hsame
    refine .bind (.self _) fun ended _ => ?_
    exact .ite (fun _ => .ok hsame) fun _ => hrest

end Database

/-! ## The pairs on the handle -/

/-- `c` with the pairs on the handle `x`, which carries none of the protocols in `c`. -/
structure Catalogue.Added (c : Catalogue) (x : Addr) (pairs : List Pair) (c' : Catalogue) :
    Prop where
  installed : ∀ g, c'.installed g =
    c.installed g ++ (pairs.filter (·.1 = g)).map fun pair => (x, pair.2)
  distinct : (pairs.map (·.1)).Nodup
  new : ∀ pair ∈ pairs, ¬ c.Carries x pair.1

namespace Catalogue.Added

variable {c c' : Catalogue} {x : Addr} {g : Guid} {i : Nat} {pairs : List Pair}

theorem nil (c : Catalogue) (x : Addr) : c.Added x [] c where
  installed := by simp
  distinct := List.nodup_nil
  new := by simp

theorem carries (h : c.Added x pairs c') (a : Addr) (g : Guid) :
    c'.Carries a g ↔ c.Carries a g ∨ (a = x ∧ g ∈ pairs.map (·.1)) := by
  unfold Carries
  rw [h.installed, List.map_append, List.mem_append]
  simp only [List.mem_map, List.mem_filter, decide_eq_true_eq]
  constructor
  · rintro (h | ⟨_, ⟨pair, ⟨hmem, rfl⟩, rfl⟩, rfl⟩)
    · exact .inl h
    · exact .inr ⟨rfl, pair, hmem, rfl⟩
  · rintro (h | ⟨rfl, pair, hmem, rfl⟩)
    · exact .inl h
    · exact .inr ⟨_, ⟨pair, ⟨hmem, rfl⟩, rfl⟩, rfl⟩

theorem live (h : c.Added x pairs c') : c'.Live x ↔ c.Live x ∨ pairs ≠ [] := by
  constructor
  · rintro ⟨g, hg⟩
    obtain hg | ⟨-, hmem⟩ := (h.carries x g).mp hg
    · exact .inl ⟨g, hg⟩
    · exact .inr (by
        rintro rfl
        cases hmem)
  · rintro (⟨g, hg⟩ | hne)
    · exact ⟨g, (h.carries x g).mpr (.inl hg)⟩
    · obtain ⟨pair, hmem⟩ := List.exists_mem_of_ne_nil _ hne
      exact ⟨pair.1, (h.carries x _).mpr (.inr ⟨rfl, List.mem_map_of_mem hmem⟩)⟩

/-- Nothing has been added yet, so it may be to another handle. -/
theorem move (h : c.Added x [] c') (y : Addr) : c.Added y [] c' :=
  ⟨h.installed, h.distinct, by simp⟩

theorem add (h : c.Added x pairs c') (hnew : ¬ c'.Carries x g) :
    c.Added x (pairs ++ [(g, i)]) (c'.add g x i hnew) := by
  rw [h.carries, not_or] at hnew
  obtain ⟨hnew, hother⟩ := hnew
  refine ⟨fun g' => ?_, ?_, ?_⟩
  · show Function.update c'.installed g (c'.installed g ++ [(x, i)]) g' = _
    by_cases hg : g' = g
    · subst hg
      rw [Function.update_self, h.installed]
      simp
    · rw [Function.update_of_ne hg, h.installed]
      simp [Ne.symm hg]
  · rw [List.map_append, List.map_singleton, List.nodup_append]
    refine ⟨h.distinct, List.nodup_singleton _, ?_⟩
    rintro a ha b hb rfl
    rw [List.mem_singleton.mp hb] at ha
    exact hother ⟨rfl, ha⟩
  · intro pair hmem
    rcases List.mem_append.mp hmem with hmem | hmem
    · exact h.new pair hmem
    · rw [List.mem_singleton.mp hmem]
      exact hnew

theorem remove (h : c.Added x ((g, i) :: pairs) c') : c.Added x pairs (c'.remove g x) := by
  obtain ⟨hfirst, hdistinct⟩ := List.nodup_cons.mp h.distinct
  refine ⟨fun g' => ?_, hdistinct, fun pair hmem => h.new pair (List.mem_cons_of_mem _ hmem)⟩
  show Function.update c'.installed g ((c'.installed g).filter (·.1 ≠ x)) g' = _
  by_cases hg : g' = g
  · subst hg
    have hnone : pairs.filter (·.1 = g') = [] := by
      rw [List.filter_eq_nil_iff]
      intro pair hmem heq
      exact hfirst (List.mem_map.mpr ⟨pair, hmem, by simpa using heq⟩)
    have hkeep : (c.installed g').filter (·.1 ≠ x) = c.installed g' := by
      rw [List.filter_eq_self]
      intro entry hmem
      rw [decide_eq_true_eq]
      rintro rfl
      exact h.new _ List.mem_cons_self (List.mem_map_of_mem hmem)
    rw [Function.update_self, h.installed, List.filter_append, hkeep, hnone]
    simp [hnone]
  · rw [Function.update_of_ne hg, h.installed]
    simp [Ne.symm hg]

end Catalogue.Added

namespace Database

/-- The pairs are installed on `x` and not in use; all else is as `c` and the handles `L` say. -/
structure Progress (L : List Addr) (c : Catalogue) (x : Addr) (pairs : List Pair)
    (db : Database A) : Prop where
  lists : ∃ c', c.Added x pairs c' ∧ db.Lists c'
  unused : ∀ p pair, pair ∈ pairs → db.Holds p x pair.1 pair.2 → db.openListOf p = []
  known : c.Live x ∨ pairs = [] → db.handleList = L
  created : ¬ c.Live x → pairs ≠ [] → db.handleList = L ++ [x]

namespace Progress

variable {L : List Addr} {c : Catalogue} {x : Addr} {pairs : List Pair} {db db' : Database A}

theorem start (h : db.Lists c) (x : Addr) : Progress db.handleList c x [] db :=
  ⟨⟨c, .nil c x, h⟩, by simp, fun _ => rfl, fun _ hne => absurd rfl hne⟩

theorem same (h : Progress L c x pairs db) (hsame : SameContents db db') :
    Progress L c x pairs db' := by
  obtain ⟨c', hadded, hlists⟩ := h.lists
  refine ⟨⟨c', hadded, hsame.lists c' hlists⟩, fun p pair hmem hholds => ?_,
    fun hknown => hsame.handleList.trans (h.known hknown),
    fun hdead hne => hsame.handleList.trans (h.created hdead hne)⟩
  have hkeeps := hsame.interfaces p
  have hnil := h.unused p pair hmem (hkeeps.holds _ _ _ hholds)
  exact List.eq_nil_of_length_eq_zero (by rw [hkeeps.openList, hnil, List.length_nil])

/-- `InstallProtocolInterface` adds a pair, or leaves all as it is. -/
theorem install (h : Progress L c x pairs db) {pool : InstallPool} (hfresh : pool.Fresh db)
    (g : Guid) (i : Nat) :
    (∃ db' y, db.installProtocolInterface pool (some x) (some g) .native i =
        (db', .success, some y) ∧ Progress L c y (pairs ++ [(g, i)]) db' ∧ (x ≠ 0 → y = x)) ∨
      ∃ db' status, db.installProtocolInterface pool (some x) (some g) .native i =
        (db', status, some x) ∧ status ≠ .success ∧ Progress L c x pairs db' := by
  obtain ⟨c', hadded, hlists⟩ := h.lists
  have hinstalled := hlists.installProtocolInterface hfresh x g i
  cases hr : db.installProtocolInterface pool (some x) (some g) .native i with
  | mk db' answer =>
    obtain ⟨status, handle⟩ := answer
    rw [hr] at hinstalled
    cases hinstalled with
    | refused hstatus _ hsame => exact .inr ⟨db', status, rfl, hstatus, h.same hsame⟩
    | installed hnew hhandle hlists' hp hunused hrest =>
      rename_i y p
      refine .inl ⟨db', y, rfl, ?_, ?_⟩
      · -- the handle is that of the pairs before, or there are none before
        have hsame : c.Added y pairs c' ∧ (pairs = [] ∨ y = x) := by
          obtain ⟨h0, -⟩ | ⟨heq, -⟩ := hhandle
          · subst h0
            have hdead : ¬ c'.Live 0 := fun ⟨g, hg⟩ => hlists.not_carries_null g hg
            have hnil : pairs = [] := by
              by_contra hne
              exact hdead (hadded.live.mpr (.inr hne))
            subst hnil
            exact ⟨hadded.move y, .inl rfl⟩
          · subst heq
            exact ⟨hadded, .inr rfl⟩
        obtain ⟨hadded', hwho⟩ := hsame
        refine ⟨⟨_, hadded'.add hnew, hlists'⟩, fun q pair hmem hholds => ?_, ?_, ?_⟩
        · by_cases hq : q = p
          · rw [hq]
            exact hunused
          · have hkeeps := hrest q hq
            have hbefore := hkeeps.holds _ _ _ hholds
            rcases List.mem_append.mp hmem with hmem | hmem
            · obtain rfl | rfl := hwho
              · cases hmem
              · have hnil := h.unused q pair hmem hbefore
                exact List.eq_nil_of_length_eq_zero (by
                  rw [hkeeps.openList, hnil, List.length_nil])
            · rw [List.mem_singleton.mp hmem] at hbefore
              exact absurd ((hlists.carries y g).mpr ⟨q, i, hbefore⟩) hnew
        · rintro (hlive | hnil)
          · obtain ⟨-, -, -, hdead, -⟩ | ⟨heq, -, -, hlist⟩ := hhandle
            · exact absurd (hadded'.live.mpr (.inl hlive)) hdead
            · rw [hlist, h.known (.inl (by rwa [heq]))]
          · simp at hnil
        · intro hdead _
          obtain ⟨-, -, -, hdead', hlist⟩ | ⟨heq, -, hlive, hlist⟩ := hhandle
          · have hnil : pairs = [] := by
              by_contra hne
              exact hdead' (hadded'.live.mpr (.inr hne))
            rw [hlist, h.known (.inr hnil)]
          · subst heq
            rw [hlist, h.created hdead ((hadded.live.mp hlive).resolve_left hdead)]
      · intro h0
        obtain ⟨h0', -⟩ | ⟨heq, -⟩ := hhandle
        · exact absurd h0' h0
        · exact heq.symm

/-- `UninstallProtocolInterface` takes a pair back. -/
theorem uninstall {g : Guid} {i : Nat} (h : Progress L c x ((g, i) :: pairs) db)
    (hx : ¬ c.Live x → x ∉ L) (D : Drivers A) (fuel : Nat) :
    ∃ db', db.uninstallProtocolInterface D (fuel + 1) x (some g) i = some (db', .success) ∧
      Progress L c x pairs db' := by
  obtain ⟨c', hadded, hlists⟩ := h.lists
  have hmem : (x, i) ∈ c'.installed g := by
    rw [hadded.installed, List.mem_append, List.mem_map]
    exact .inr ⟨(g, i), by simp, rfl⟩
  obtain ⟨p, hholds⟩ := (hlists.mem x g i).mp hmem
  obtain ⟨prot, entry, hprot, -⟩ := id hholds
  have hunused : prot.openList = [] := by
    have hnil := h.unused p (g, i) List.mem_cons_self hholds
    rwa [openListOf, hprot] at hnil
  have hlive : c'.Live x := hadded.live.mpr (.inr (List.cons_ne_nil _ _))
  obtain ⟨hstatus, hlists', hkept, herased, hgone, hrest⟩ := hlists.uninstallUnused hholds
  have hcall : db.uninstallProtocolInterface D (fuel + 1) x (some g) i =
      some (db.uninstallUnused x g i) := by
    unfold uninstallProtocolInterface
    dsimp only
    rw [hlists.validateHandle_live hlive]
    dsimp only
    rw [(hlists.wellFormed.findProtocolInterface x g i p).mpr hholds]
    dsimp only
    rw [hlists.wellFormed.toLinked.disconnect_unused hprot hunused]
  refine ⟨_, hcall.trans (congrArg some (Prod.ext rfl hstatus)),
    ⟨_, hadded.remove, hlists'⟩, fun q pair hmem' hq => ?_, fun hknown => ?_,
    fun hdead hne => ?_⟩
  · by_cases hqp : q = p
    · obtain ⟨prot', -, hprot', -⟩ := hq
      rw [hqp, hgone] at hprot'
      cases hprot'
    · have hkeeps := hrest q hqp
      have hnil := h.unused q pair (List.mem_cons_of_mem _ hmem') (hkeeps.holds _ _ _ hq)
      exact List.eq_nil_of_length_eq_zero (by rw [hkeeps.openList, hnil, List.length_nil])
  · by_cases hlive' : c.Live x
    · rw [hkept (hadded.remove.live.mpr (.inl hlive')), h.known (.inl hlive')]
    · -- the handle was made for the pairs, and goes with the last of them
      have hgone' : ¬ (c'.remove g x).Live x := by
        rw [hadded.remove.live]
        simp [hlive', hknown.resolve_left hlive']
      rw [herased hgone', h.created hlive' (List.cons_ne_nil _ _),
        List.erase_append_right _ (hx hlive')]
      simp
  · rw [hkept (hadded.remove.live.mpr (.inr hne)), h.created hdead (List.cons_ne_nil _ _)]

/-- The installing loop stops behind the pairs it has installed. -/
theorem installPairs {alloc : Nat → Database A → InstallPool}
    (hfresh : ∀ n db, (alloc n db).Fresh db) (todo : List Pair) (h : Progress L c x pairs db) :
    ∃ taken rest y, pairs ++ todo = taken ++ rest ∧
      (db.installPairs alloc pairs.length todo x).2.2 = (taken.length, y) ∧
      Progress L c y taken (db.installPairs alloc pairs.length todo x).1 := by
  induction todo generalizing pairs db x with
  | nil => exact ⟨pairs, [], x, rfl, rfl, h⟩
  | cons pair todo ih =>
    obtain ⟨g, i⟩ := pair
    rw [Database.installPairs]
    obtain ⟨db', y, hcall, hnext, -⟩ | ⟨db', status, hcall, hstatus, hnext⟩ :=
      h.install (hfresh pairs.length db) g i
    · rw [hcall]
      have hrest := ih hnext
      rw [List.length_append, List.length_singleton, List.append_assoc] at hrest
      exact hrest
    · rw [hcall]
      cases status with
      | success => exact absurd rfl hstatus
      | _ => exact ⟨pairs, (g, i) :: todo, x, rfl, rfl, hnext⟩

/-- All the pairs that were installed are taken back. -/
theorem uninstallPairs (h : Progress L c x pairs db) (hx : ¬ c.Live x → x ∉ L)
    (D : Drivers A) (fuel : Nat) (rest : List Pair) :
    ∃ db', db.uninstallPairs D (fuel + 1) x pairs.length (pairs ++ rest) = some db' ∧
      Progress L c x [] db' := by
  induction pairs generalizing db with
  | nil =>
    refine ⟨db, ?_, h⟩
    cases rest <;> rfl
  | cons pair pairs ih =>
    obtain ⟨g, i⟩ := pair
    obtain ⟨db', hcall, hnext⟩ := h.uninstall hx D fuel
    rw [List.length_cons, List.cons_append, Database.uninstallPairs, hcall]
    exact ih hnext

/-- With all the pairs taken back the database lists what it did. -/
theorem undone (h : Progress L c x [] db) : db.Lists c ∧ db.handleList = L := by
  obtain ⟨c', hadded, hlists⟩ := h.lists
  refine ⟨⟨hlists.wellFormed, fun g => ?_⟩, h.known (.inr rfl)⟩
  rw [hlists.same, hadded.installed]
  simp

end Progress

section InstallMultiple

variable {db : Database A} {c : Catalogue} {alloc : Nat → Database A → InstallPool}

/-- `InstallMultipleProtocolInterfaces` answers, unless a walk over a device path does not; with an
    error everything is as it was. -/
theorem Lists.installMultiple (h : db.Lists c) (D : Drivers A) (fuel : Nat)
    (hfresh : ∀ n db, (alloc n db).Fresh db) (memory : Nat → List Bool)
    (paths : Addr → List Byte) (handle : Addr) (pairs : List Pair) :
    (∃ fault, db.checkDevicePaths memory paths 0 pairs = .error fault ∧
        db.installMultipleProtocolInterfaces D (fuel + 1) alloc memory paths handle pairs =
          .error fault) ∨
      ∃ db' status newHandle,
        db.installMultipleProtocolInterfaces D (fuel + 1) alloc memory paths handle pairs =
          .ok (db', status, newHandle) ∧
        (status ≠ .success →
          db'.Lists c ∧ db'.handleList = db.handleList ∧ newHandle = handle) := by
  have hchecked := checkDevicePaths_same memory paths pairs 0 h
  rw [installMultipleProtocolInterfaces]
  cases hcheck : db.checkDevicePaths memory paths 0 pairs with
  | error fault => exact .inl ⟨fault, rfl, rfl⟩
  | ok checked =>
    obtain ⟨db₁, started⟩ := checked
    have hsame := hchecked _ hcheck
    have h₁ := hsame.lists _ h
    simp only [bind, Except.bind]
    cases started with
    | true => exact .inr ⟨db₁, _, _, rfl, fun _ => ⟨h₁, hsame.handleList, rfl⟩⟩
    | false =>
      obtain ⟨taken, rest, y, hpairs, hindex, hprogress⟩ :=
        (Progress.start h₁ handle).installPairs hfresh pairs
      have hy : ¬ c.Live y → y ∉ db₁.handleList := by
        intro hdead hmem
        exact hdead ((h₁.live y).mpr ((h₁.wellFormed.mem_handleList y).mp hmem))
      obtain ⟨db₂, hundo, hundone⟩ := hprogress.uninstallPairs hy D fuel rest
      obtain ⟨h₂, hlist⟩ := hundone.undone
      rw [← hpairs, List.nil_append] at hundo
      rw [List.length_nil] at hindex hundo
      simp only [Bool.false_eq_true, if_false]
      cases hinstall : db₁.installPairs alloc 0 pairs handle with
      | mk db₃ answer =>
        obtain ⟨status, index, newHandle⟩ := answer
        rw [hinstall] at hindex hundo
        cases hindex
        cases status with
        | success => exact .inr ⟨db₃, _, y, rfl, fun hstatus => absurd rfl hstatus⟩
        | _ =>
          simp only [hundo]
          exact .inr ⟨db₂, _, _, rfl, fun _ => ⟨h₂, hlist.trans hsame.handleList, rfl⟩⟩

/-- A call of `InstallMultipleProtocolInterfaces` that reports an error has installed nothing. -/
theorem installMultipleProtocolInterfaces_allOrNothing (hwf : db.WellFormed) (D : Drivers A)
    (fuel : Nat) (hfresh : ∀ n db, (alloc n db).Fresh db) (memory : Nat → List Bool)
    (paths : Addr → List Byte) (handle : Addr) (pairs : List Pair) :
    (∀ fault, db.installMultipleProtocolInterfaces D (fuel + 1) alloc memory paths handle pairs =
        .error fault → db.checkDevicePaths memory paths 0 pairs = .error fault) ∧
      ∀ db' status newHandle,
        db.installMultipleProtocolInterfaces D (fuel + 1) alloc memory paths handle pairs =
          .ok (db', status, newHandle) → status ≠ .success →
        db'.triples = db.triples ∧ db'.handleList = db.handleList ∧ newHandle = handle := by
  obtain ⟨fault, hcheck, hcall⟩ | ⟨db', status, newHandle, hcall, hundone⟩ :=
    hwf.lists.installMultiple D fuel hfresh memory paths handle pairs
  · rw [hcall, hcheck]
    refine ⟨?_, by rintro _ _ _ ⟨⟩⟩
    rintro _ ⟨⟩
    rfl
  · rw [hcall]
    refine ⟨by rintro _ ⟨⟩, ?_⟩
    rintro _ _ _ ⟨⟩ hstatus
    obtain ⟨h', hrest⟩ := hundone hstatus
    exact ⟨h'.triples.trans hwf.lists.triples.symm, hrest⟩

end InstallMultiple

end Database

/-- Memory for the first installation only. -/
def firstOnly (A : Arch) (n : Nat) (db : Database A) : InstallPool :=
  if n = 0 then takeFree 1 2 3 db else ⟨none, none, none⟩

theorem firstOnly_fresh (n : Nat) (db : Database A) : (firstOnly A n db).Fresh db := by
  unfold firstOnly
  split
  · exact takeFree_fresh (by decide) (by decide) (by decide) (by decide) (by decide) (by decide) db
  · exact .empty db

/-- A second protocol for which there is no memory. -/
theorem installMultipleProtocolInterfaces_outOfMemory :
    (∃ db', (Database.initializeHandle .efi64).installMultipleProtocolInterfaces
        (Drivers.idle .efi64) 1 (firstOnly .efi64) (fun _ => []) (fun _ => []) 0
        [(1, 100), (2, 200)] = .ok (db', .unsupported, 0)) ∧
      ∀ db' status newHandle,
        (Database.initializeHandle .efi64).installMultipleProtocolInterfaces
          (Drivers.idle .efi64) 1 (firstOnly .efi64) (fun _ => []) (fun _ => []) 0
          [(1, 100), (2, 200)] = .ok (db', status, newHandle) → status ≠ .success →
        db'.triples = (Database.initializeHandle .efi64).triples ∧
          db'.handleList = (Database.initializeHandle .efi64).handleList ∧ newHandle = 0 :=
  ⟨⟨_, rfl⟩, (Database.installMultipleProtocolInterfaces_allOrNothing
    Database.WellFormed.initial (Drivers.idle .efi64) 0 firstOnly_fresh (fun _ => [])
    (fun _ => []) 0 [(1, 100), (2, 200)]).2⟩

end EfiCore.Hand
