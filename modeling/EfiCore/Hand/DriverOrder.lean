import EfiCore.Hand.ConnectDrivers
import EfiCore.Lib.Meets

/-! # The order of the drivers

`ConnectSingleController` collects the instances of the driver binding protocol each once, and so
it fills an entry of its array for every instance, where it sorts one for every handle.  It offers
the drivers in their order exactly when these are as many.
-/

namespace EfiCore.Hand

open EfiCore.DevPath EfiCore.Lib

variable {A : Arch}

namespace Database

variable {db db' db'' : Database A} {c : Catalogue}

/-! ## Searches -/

/-- The other database has the same handles and interfaces, with other open lists. -/
structure Alike (db db' : Database A) : Prop where
  handles : db'.handles = db.handles
  request : db'.efiLocateHandleRequest = db.efiLocateHandleRequest
  entries : db'.entries = db.entries
  protocolDatabase : db'.protocolDatabase = db.protocolDatabase
  interfaces : ∀ p, (db'.interfaces p).map (fun prot => (prot.handle, prot.interface)) =
    (db.interfaces p).map fun prot => (prot.handle, prot.interface)

theorem Alike.refl (db : Database A) : Alike db db :=
  ⟨rfl, rfl, rfl, rfl, fun _ => rfl⟩

theorem Alike.trans (h : Alike db db') (h' : Alike db' db'') : Alike db db'' where
  handles := h'.handles.trans h.handles
  request := h'.request.trans h.request
  entries := h'.entries.trans h.entries
  protocolDatabase := h'.protocolDatabase.trans h.protocolDatabase
  interfaces := fun p => (h'.interfaces p).trans (h.interfaces p)

theorem Alike.withOpenList {p : Addr} {prot : ProtocolInterface A}
    (hp : db.interfaces p = some prot) (openList : List OpenData) :
    Alike db (db.withOpenList p openList) where
  handles := rfl
  request := rfl
  entries := rfl
  protocolDatabase := rfl
  interfaces := by
    intro q
    unfold Database.withOpenList Database.modifyInterface
    dsimp only
    by_cases hq : q = p
    · subst hq
      rw [Function.update_self, Option.map_map, hp]
      rfl
    · rw [Function.update_of_ne hq]

theorem Alike.interfaceOf (h : db.Lists c) (a : Addr) (g : Guid) :
    Alike db (db.interfaceOf a g).1 := by
  have hdb : (db.interfaceOf a g).1 = (db.handleProtocol a (some g) true).1 := by
    unfold Database.interfaceOf
    split <;> simp_all
  rw [hdb]
  by_cases hc : c.Carries a g
  · obtain ⟨p, i, hholds⟩ := (h.carries a g).mp hc
    obtain ⟨prot, entry, hprot, -⟩ := id hholds
    obtain ⟨openList, -, heq⟩ := h.handleProtocol_holds hholds hprot
    rw [heq]
    exact .withOpenList hprot openList
  · by_cases hlive : c.Live a
    · rw [h.handleProtocol_unsupported hlive hc]
      exact .refl db
    · rw [h.handleProtocol_dead hlive]
      exact .refl db

theorem Alike.nextByProtocol (h : Alike db db') (interface : Nat) (ps : List Addr) :
    (db'.nextByProtocol interface ps).2 = (db.nextByProtocol interface ps).2 := by
  induction ps generalizing interface with
  | nil => rfl
  | cons p ps ih =>
    have hp := h.interfaces p
    rw [Database.nextByProtocol, Database.nextByProtocol, h.handles, h.request]
    cases hi : db.interfaces p with
    | none =>
      rw [hi, Option.map_none, Option.map_eq_none_iff] at hp
      rw [hp]
      exact ih interface
    | some prot =>
      rw [hi, Option.map_some, Option.map_eq_some_iff] at hp
      obtain ⟨prot', hp, heq⟩ := hp
      obtain ⟨hhandle, hinterface⟩ := Prod.mk.inj heq
      rw [hp]
      dsimp only
      rw [hhandle, hinterface]
      cases db.handles prot.handle with
      | none => exact ih prot.interface
      | some handle =>
        dsimp only
        by_cases hrequest : handle.locateRequest = db.efiLocateHandleRequest
        · rw [if_pos hrequest, if_pos hrequest]
          exact ih prot.interface
        · rw [if_neg hrequest, if_neg hrequest]

theorem Alike.newRequest (h : Alike db db') : Alike db.newRequest db'.newRequest where
  handles := h.handles
  request := congrArg (· + 1) h.request
  entries := h.entries
  protocolDatabase := h.protocolDatabase
  interfaces := h.interfaces

theorem Alike.locateProtocol (h : Alike db db') (g : Guid) :
    (db'.locateProtocol g none true).2 = (db.locateProtocol g none true).2 := by
  have hfind : (db'.findProtocolEntry g).bind db'.entries =
      (db.findProtocolEntry g).bind db.entries := by
    unfold findProtocolEntry
    rw [h.entries, h.protocolDatabase]
  unfold Database.locateProtocol
  rw [hfind]
  cases (db.findProtocolEntry g).bind db.entries with
  | none => rfl
  | some entry =>
    have hnext := h.newRequest.nextByProtocol 0 entry.protocols
    cases hr : db.newRequest.nextByProtocol 0 entry.protocols with
    | mk db₁ answer =>
      cases hr' : db'.newRequest.nextByProtocol 0 entry.protocols with
      | mk db₂ answer' =>
        rw [hr, hr'] at hnext
        obtain ⟨handle, interface⟩ := answer
        cases hnext
        simp only [hr, hr']
        cases handle <;> rfl

theorem Alike.platformDrivers (h : Alike db db') (E : DriverCode) :
    (db'.platformDrivers E).2 = (db.platformDrivers E).2 := by
  have hanswer := h.locateProtocol platformDriverOverrideProtocol
  unfold Database.platformDrivers
  cases hr : db.locateProtocol platformDriverOverrideProtocol none true with
  | mk db₁ answer =>
    cases hr' : db'.locateProtocol platformDriverOverrideProtocol none true with
    | mk db₂ answer' =>
      rw [hr, hr'] at hanswer
      obtain ⟨status, i⟩ := answer
      cases hanswer
      cases status <;> rfl

/-- What a handle exposes does not depend on who has opened it. -/
theorem Lists.interfaceOf_eq (h : db.Lists c) (h' : db'.Lists c) (a : Addr) (g : Guid) :
    (db'.interfaceOf a g).2 = (db.interfaceOf a g).2 :=
  Option.ext fun i => ((h'.interfaceOf a g).2 i).trans ((h.interfaceOf a g).2 i).symm

theorem Lists.busDrivers (h : db.Lists c) (E : DriverCode) (controller : Addr) :
    SameContents db (db.busDrivers E controller).1 := by
  have hsame := (h.interfaceOf controller busSpecificDriverOverrideProtocol).1
  unfold Database.busDrivers
  cases hr : db.interfaceOf controller busSpecificDriverOverrideProtocol with
  | mk db₁ i =>
    rw [hr] at hsame
    cases i <;> exact hsame

theorem Lists.busDrivers_eq (h : db.Lists c) (h' : db'.Lists c) (E : DriverCode)
    (controller : Addr) : (db'.busDrivers E controller).2 = (db.busDrivers E controller).2 := by
  have hanswer := h.interfaceOf_eq h' controller busSpecificDriverOverrideProtocol
  unfold Database.busDrivers
  cases hr : db.interfaceOf controller busSpecificDriverOverrideProtocol with
  | mk db₁ i =>
    cases hr' : db'.interfaceOf controller busSpecificDriverOverrideProtocol with
    | mk db₂ i' =>
      rw [hr, hr'] at hanswer
      cases hanswer
      cases i <;> rfl

theorem SameContents.nextByProtocol (db : Database A) (interface : Nat) (ps : List Addr) :
    SameContents db (db.nextByProtocol interface ps).1 := by
  induction ps generalizing interface with
  | nil => exact .refl db
  | cons p ps ih =>
    rw [Database.nextByProtocol]
    cases db.interfaces p with
    | none => exact ih interface
    | some prot =>
      dsimp only
      cases db.handles prot.handle with
      | none => exact ih prot.interface
      | some handle =>
        dsimp only
        by_cases hrequest : handle.locateRequest = db.efiLocateHandleRequest
        · rw [if_pos hrequest]
          exact ih prot.interface
        · rw [if_neg hrequest]
          exact .stamp db prot.handle

theorem SameContents.locateProtocol (db : Database A) (g : Guid) :
    SameContents db (db.locateProtocol g none true).1 := by
  unfold Database.locateProtocol
  cases (db.findProtocolEntry g).bind db.entries with
  | none => exact .newRequest db
  | some entry =>
    have hnext := (SameContents.newRequest db).trans (.nextByProtocol _ 0 entry.protocols)
    cases hr : db.newRequest.nextByProtocol 0 entry.protocols with
    | mk db₁ answer =>
      rw [hr] at hnext
      obtain ⟨handle, interface⟩ := answer
      simp only [hr]
      cases handle <;> exact hnext

theorem SameContents.platformDrivers (db : Database A) (E : DriverCode) :
    SameContents db (db.platformDrivers E).1 := by
  have hsame := SameContents.locateProtocol db platformDriverOverrideProtocol
  unfold Database.platformDrivers
  cases hr : db.locateProtocol platformDriverOverrideProtocol none true with
  | mk db₁ answer =>
    rw [hr] at hsame
    obtain ⟨status, i⟩ := answer
    cases status <;> exact hsame

/-! ## Collecting -/

/-- The driver binding instance that a handle exposes, if it is not `NULL`. -/
def bindingOf (db : Database A) (handle : Addr) : Option Nat :=
  (db.interfaceOf handle driverBindingProtocol).2

def bindings (db : Database A) (handles : List Addr) : List Nat :=
  handles.filterMap db.bindingOf

theorem bindings_cons (db : Database A) (handle : Addr) (handles : List Addr) :
    db.bindings (handle :: handles) = (db.bindingOf handle).toList ++ db.bindings handles := by
  unfold bindings
  rw [List.filterMap_cons]
  cases db.bindingOf handle <;> rfl

theorem bindings_append (db : Database A) (handles handles' : List Addr) :
    db.bindings (handles ++ handles') = db.bindings handles ++ db.bindings handles' :=
  List.filterMap_append

theorem Lists.bindingOf_null (h : db.Lists c) : db.bindingOf 0 = none := by
  refine Option.eq_none_iff_forall_ne_some.mpr fun i hi => ?_
  have hmem := (((h.interfaceOf 0 driverBindingProtocol).2 i).mp hi).2
  exact h.not_carries_null _ (List.mem_map_of_mem hmem)

/-- The instances `bs`, in the order in which they were offered, are collected, in an array that
    has an entry for each of the handles `located`.  Of these, the handles that are blanked expose
    nothing more. -/
structure Collected (db : Database A) (c : Catalogue) (located : List Addr) (bs : List Nat)
    (r : Database A × Sorting) : Prop where
  lists : r.1.Lists c
  sorted : r.2.sorted = bs.eraseDups
  fits : r.2.sorted.length ≤ located.length
  handles : List.Forall₂
    (fun a a' => a' = a ∨ (a' = 0 ∧ ∀ b, db.bindingOf a = some b → b ∈ bs)) located r.2.handles

section Collect

variable {located : List Addr} {bs total : List Nat} {s : Sorting}

theorem Collected.known (hs : Collected db c located bs (db', s)) (hdb' : db''.Lists c) {b : Nat}
    (hb : b ∈ bs) : Collected db c located (bs ++ [b]) (db'', s) where
  lists := hdb'
  sorted := by
    rw [eraseDups_concat, if_pos hb]
    exact hs.sorted
  fits := hs.fits
  handles := hs.handles.imp fun a a' ha => ha.imp_right fun h0 =>
    ⟨h0.1, fun b hb => List.mem_append_left _ (h0.2 b hb)⟩

/-- `AddSortedDriverBindingProtocol` adds the instance of its handle, if there is an entry. -/
theorem addSortedDriverBindingProtocol_meets (h : db.Lists c)
    (hs : Collected db c located bs (db', s)) (handle : Addr)
    (htotal : bs ++ (db.bindingOf handle).toList <+: total) :
    Meets (fun _ => located.length < total.eraseDups.length)
      (db'.addSortedDriverBindingProtocol handle s)
      (Collected db c located (bs ++ (db.bindingOf handle).toList)) := by
  unfold addSortedDriverBindingProtocol
  refine .ite (fun h0 => ?_) fun h0 => ?_
  · rw [h0, h.bindingOf_null, Option.toList_none, List.append_nil]
    exact .ok hs
  · obtain ⟨hsame, -⟩ := hs.lists.interfaceOf handle driverBindingProtocol
    have hbinding : (db'.interfaceOf handle driverBindingProtocol).2 = db.bindingOf handle :=
      h.interfaceOf_eq hs.lists handle driverBindingProtocol
    cases hr : db'.interfaceOf handle driverBindingProtocol with
    | mk db₁ i =>
      rw [hr] at hsame hbinding
      dsimp only at hsame hbinding
      have hlists := hsame.lists c hs.lists
      cases i with
      | none =>
        rw [← hbinding, Option.toList_none, List.append_nil]
        exact .ok ⟨hlists, hs.sorted, hs.fits, hs.handles⟩
      | some b =>
        rw [← hbinding] at htotal ⊢
        have hmem : b ∈ s.sorted ↔ b ∈ bs := by rw [hs.sorted, List.mem_eraseDups]
        have hlength := hs.handles.length_eq
        dsimp only at hlength
        refine .ite (fun hb => .ok (hs.known hlists (hmem.mp hb))) fun hb => ?_
        have hnew := fun hb' => hb (hmem.mpr hb')
        have hsorted : (bs ++ [b]).eraseDups = s.sorted ++ [b] := by
          rw [eraseDups_concat, if_neg hnew, hs.sorted]
        refine .ite (fun hfull => ?_) fun hfull => ?_
        · -- the array is full, so there are more instances than handles
          refine .error (lt_of_lt_of_le ?_ (eraseDups_length_le htotal))
          rw [Option.toList_some, hsorted, List.length_append, List.length_singleton]
          omega
        · refine .ok ⟨hlists, hsorted.symm, ?_, ?_⟩
          · dsimp only
            rw [List.length_append, List.length_singleton]
            omega
          · refine List.forall₂_map_right_iff.mpr (hs.handles.imp fun a a' ha => ?_)
            by_cases hblank : a' = handle
            · -- the handle itself is blanked
              rw [if_pos hblank]
              refine .inr ⟨rfl, fun b' hb' => ?_⟩
              obtain rfl | ⟨rfl, -⟩ := ha
              · rw [hblank, ← hbinding] at hb'
                exact List.mem_append_right _ (by simp [Option.some.inj hb'])
              · exact absurd hblank.symm h0
            · rw [if_neg hblank]
              exact ha.imp_right fun hz =>
                ⟨hz.1, fun b' hb' => List.mem_append_left _ (hz.2 b' hb')⟩

theorem addHandles_meets (h : db.Lists c) (handles : List Addr)
    (hs : Collected db c located bs (db', s)) (total : List Nat)
    (htotal : bs ++ db.bindings handles <+: total) :
    Meets (fun _ => located.length < total.eraseDups.length) (addHandles handles db' s)
      (Collected db c located (bs ++ db.bindings handles)) := by
  induction handles generalizing db' bs s with
  | nil =>
    rw [bindings, List.filterMap_nil, List.append_nil]
    exact .ok hs
  | cons handle handles ih =>
    rw [bindings_cons, ← List.append_assoc] at htotal ⊢
    rw [addHandles]
    refine .bind (addSortedDriverBindingProtocol_meets h hs handle
      ((List.prefix_append _ _).trans htotal)) fun r hr => ?_
    exact ih hr htotal

/-- The loop over `DriverBindingHandleBuffer` collects the instances of all its handles. -/
theorem addRemaining_meets (h : db.Lists c) (back front : List Addr)
    (hs : Collected db c (front ++ back) bs (db', s)) (htotal : bs ++ db.bindings back <+: total) :
    Meets (fun _ => (front ++ back).length < total.eraseDups.length)
      (addRemaining back.length front.length db' s)
      (Collected db c (front ++ back) (bs ++ db.bindings back)) := by
  induction back generalizing front db' bs s with
  | nil =>
    have hnil : bs ++ db.bindings [] = bs := List.append_nil bs
    rw [hnil]
    exact .ok hs
  | cons a back ih =>
    have hlist : front ++ a :: back = (front ++ [a]) ++ back := by simp
    have hlength : front.length + 1 = (front ++ [a]).length := by simp
    have hdrop := List.forall₂_drop front.length hs.handles
    rw [List.drop_left] at hdrop
    obtain ⟨a', rest, ha, -, hrest⟩ := List.forall₂_cons_left_iff.mp hdrop
    have hread : s.handles.getD front.length 0 = a' := by
      rw [List.getD_eq_getElem?_getD, ← List.head?_drop, hrest]
      rfl
    have hoffer : Meets (fun _ => (front ++ a :: back).length < total.eraseDups.length)
        (db'.addSortedDriverBindingProtocol a' s)
        (Collected db c (front ++ a :: back) (bs ++ (db.bindingOf a).toList)) := by
      obtain rfl | ⟨rfl, hknown⟩ := ha
      · refine addSortedDriverBindingProtocol_meets h hs a' ?_
        rw [bindings_cons, ← List.append_assoc] at htotal
        exact (List.prefix_append _ _).trans htotal
      · -- a blanked handle exposes nothing that is not collected
        unfold addSortedDriverBindingProtocol
        rw [if_pos rfl]
        cases hb : db.bindingOf a with
        | none =>
          rw [Option.toList_none, List.append_nil]
          exact .ok hs
        | some b => exact .ok (hs.known hs.lists (hknown b hb))
    rw [List.length_cons, addRemaining, hread, bindings_cons, ← List.append_assoc]
    refine .bind hoffer fun r hr => ?_
    rw [bindings_cons, ← List.append_assoc] at htotal
    rw [hlist] at hr ⊢
    rw [hlength]
    exact ih (front ++ [a]) hr htotal

end Collect

/-! ## The whole collection -/

/-- The handles of the drivers that the caller, the platform and the bus name. -/
def namedDrivers (db : Database A) (E : DriverCode) (controller : Addr) (context : List Addr) :
    List Addr :=
  context.takeWhile (· ≠ 0) ++ (db.platformDrivers E).2 ++ (db.busDrivers E controller).2

theorem addHandles_alike (handles : List Addr) (h : db.Lists c) (s : Sorting) :
    Ensures (addHandles handles db s) fun r => Alike db r.1 := by
  induction handles generalizing db s with
  | nil => exact .ok (.refl db)
  | cons handle handles ih =>
    have hadd : Ensures (db.addSortedDriverBindingProtocol handle s) fun r =>
        r.1.Lists c ∧ Alike db r.1 := by
      unfold addSortedDriverBindingProtocol
      refine .ite (fun _ => .ok ⟨h, .refl db⟩) fun _ => ?_
      have hlists := (h.interfaceOf handle driverBindingProtocol).1.lists c h
      have halike := Alike.interfaceOf h handle driverBindingProtocol
      cases hr : db.interfaceOf handle driverBindingProtocol with
      | mk db₁ i =>
        rw [hr] at hlists halike
        cases i with
        | none => exact .ok ⟨hlists, halike⟩
        | some b =>
          refine .ite (fun _ => .ok ⟨hlists, halike⟩) fun _ => ?_
          exact .ite (fun _ => .error) fun _ => .ok ⟨hlists, halike⟩
    rw [addHandles]
    refine .bind hadd fun r hr => ?_
    exact (ih hr.1 r.2).mono fun r' hr' => hr.2.trans hr'

/-- What is collected: the instances that are named, then those of the handles. -/
theorem collectDrivers_meets (h : db.Lists c) (E : DriverCode) (controller : Addr)
    (context located : List Addr) :
    Meets (fun _ => located.length < (db.bindings (db.namedDrivers E controller context) ++
        db.bindings located).eraseDups.length)
      (db.collectDrivers E controller context located) fun r =>
        r.2.1 = (db.bindings (db.namedDrivers E controller context)).eraseDups.length ∧
        r.2.2 = (db.bindings (db.namedDrivers E controller context) ++
          db.bindings located).eraseDups ∧
        r.2.2.length ≤ located.length := by
  have hstart : Collected db c located [] (db, ⟨[], located⟩) :=
    ⟨h, rfl, Nat.zero_le _, List.forall₂_same.mpr fun _ _ => .inl rfl⟩
  rw [namedDrivers, bindings_append, bindings_append]
  generalize hplatform : (db.platformDrivers E).2 = platform
  generalize hbus : (db.busDrivers E controller).2 = bus
  generalize hnamed : context.takeWhile (· ≠ 0) = first
  have hcontext := (addHandles_meets h first hstart
    (db.bindings first ++ db.bindings platform ++ db.bindings bus ++ db.bindings located)
    (by simp only [List.nil_append, List.append_assoc]; exact List.prefix_append _ _)).and
    (addHandles_alike first h ⟨[], located⟩)
  unfold collectDrivers
  rw [hnamed]
  refine .bind hcontext fun r hr => ?_
  obtain ⟨db₁, s₁⟩ := r
  obtain ⟨hr, halike⟩ := hr
  have hdrivers := halike.platformDrivers E
  have hsame := SameContents.platformDrivers db₁ E
  rw [hplatform] at hdrivers
  dsimp only at hdrivers ⊢
  cases hp : db₁.platformDrivers E with
  | mk db₂ drivers =>
    rw [hp] at hdrivers hsame
    dsimp only at hdrivers hsame ⊢
    subst hdrivers
    have hs₂ : Collected db c located (db.bindings first) (db₂, s₁) :=
      ⟨hsame.lists c hr.lists, hr.sorted, hr.fits, hr.handles⟩
    refine .bind (addHandles_meets h drivers hs₂ _ (by
      simp only [List.append_assoc, List.prefix_append_right_inj]
      exact List.prefix_append _ _)) fun r hr => ?_
    obtain ⟨db₃, s₃⟩ := r
    have hdrivers := h.busDrivers_eq hr.lists E controller
    have hsame := Lists.busDrivers hr.lists E controller
    rw [hbus] at hdrivers
    dsimp only at hdrivers hsame ⊢
    cases hp : db₃.busDrivers E controller with
    | mk db₄ others =>
      rw [hp] at hdrivers hsame
      dsimp only at hdrivers hsame ⊢
      subst hdrivers
      have hs₄ : Collected db c located (db.bindings first ++ db.bindings drivers) (db₄, s₃) :=
        ⟨hsame.lists c hr.lists, hr.sorted, hr.fits, hr.handles⟩
      refine .bind (addHandles_meets h others hs₄ _ (List.prefix_append _ _)) fun r hr => ?_
      refine .bind (addRemaining_meets h located [] hr (List.prefix_refl _)) fun r' hr' => ?_
      refine .pure ⟨?_, hr'.sorted, hr'.fits⟩
      rw [hr.sorted]

/-! ## The order -/

/-- The drivers are offered the controller in their order: those of `named` first, then by their
    version those that are also in `located`. -/
structure InOrder (E : DriverCode) (named located : List Nat) (s : Selection) : Prop where
  order : ∃ rest, s.sorted = named.eraseDups ++ rest ∧
    rest.Pairwise fun b b' => E.version b' ≤ E.version b
  distinct : s.sorted.Nodup
  all : ∀ b, b ∈ s.sorted ↔ b ∈ named ∨ b ∈ located
  calls : Orderly s.calls

/-- With as many instances as handles, the sort gets through, and the drivers are started. -/
theorem sortAndStart_spec (E : DriverCode) (named located : List Nat) {n : Nat}
    (hn : (named ++ located).eraseDups.length = n) :
    ∃ sorted calls oneStarted,
      sortRemaining E.version (n - named.eraseDups.length) named.eraseDups.length
        (named ++ located).eraseDups = .ok sorted ∧
      startDrivers E (sorted.length + 1) [] (sorted.map some) false = .ok (calls, oneStarted) ∧
      InOrder E named located ⟨sorted, calls⟩ := by
  have happend : (named ++ located).eraseDups =
      named.eraseDups ++ (located.removeAll named).eraseDups := List.eraseDups_append
  have hrest : n - named.eraseDups.length = (located.removeAll named).eraseDups.length := by
    rw [← hn, happend, List.length_append, Nat.add_sub_cancel_left]
  obtain ⟨rest, hsort, hselects⟩ := sortRemaining_spec E.version
    (located.removeAll named).eraseDups named.eraseDups
  have hperm : (named.eraseDups ++ rest).Perm (named ++ located).eraseDups := by
    rw [happend]
    exact hselects.perm.append_left _
  have hnodup : (named.eraseDups ++ rest).Nodup := hperm.nodup_iff.mpr (nodup_eraseDups _)
  have hentries : ((named.eraseDups ++ rest).map some).filterMap id = named.eraseDups ++ rest := by
    simp
  obtain ⟨calls, oneStarted, hstart, horderly⟩ := startDrivers_spec E
    ((named.eraseDups ++ rest).length + 1) [] ((named.eraseDups ++ rest).map some) false
    (by rw [hentries]; exact Nat.lt_succ_self _) .nil (by rwa [hentries]) (by simp)
  rw [hrest, happend]
  refine ⟨_, calls, oneStarted, hsort, hstart, ⟨rest, rfl, hselects.sorted⟩, hnodup, ?_, horderly⟩
  intro b
  rw [hperm.mem_iff, List.mem_eraseDups, List.mem_append]

/-- The property of `ConnectSingleController`: it reads no entry that is not filled, and if it
    gets to the array, the drivers are offered the controller in their order. -/
def ConnectsInOrder (db : Database A) (E : DriverCode) (memory : List Bool) (alloc : Bool)
    (controller : Addr) (context : List Addr) (remaining : Option (Byte × Byte)) : Prop :=
  let found := libLocateHandle db .byProtocol (some driverBindingProtocol) none memory
  ∃ r, db.connectSingleController E memory alloc controller context remaining = .ok r ∧
    (found.2 ≠ [] → alloc = true → ∃ s, r.selection = some s ∧
      InOrder E (found.1.bindings (found.1.namedDrivers E controller context))
        (found.1.bindings found.2) s)

/-- No handle is found, or there is no memory for the array, or the handles that are named and
    those that are found expose as many instances as are found. -/
def AsManyInstances (db : Database A) (E : DriverCode) (memory : List Bool) (alloc : Bool)
    (controller : Addr) (context : List Addr) : Prop :=
  let found := libLocateHandle db .byProtocol (some driverBindingProtocol) none memory
  found.2 = [] ∨ alloc = false ∨
    (found.1.bindings (found.1.namedDrivers E controller context) ++
      found.1.bindings found.2).eraseDups.length = found.2.length

theorem connectSingleController_inOrder_iff (hwf : db.WellFormed) (E : DriverCode)
    (memory : List Bool) (alloc : Bool) (controller : Addr) (context : List Addr)
    (remaining : Option (Byte × Byte)) :
    db.ConnectsInOrder E memory alloc controller context remaining ↔
      db.AsManyInstances E memory alloc controller context := by
  have hsame : SameContents db
      (libLocateHandle db .byProtocol (some driverBindingProtocol) none memory).1 :=
    growLocate_same _ _ _ memory db _
  unfold ConnectsInOrder AsManyInstances connectSingleController
  cases hr : libLocateHandle db .byProtocol (some driverBindingProtocol) none memory with
  | mk db₁ located =>
    rw [hr] at hsame
    dsimp only at hsame ⊢
    have h := hsame.lists _ hwf.lists
    have hcollect := collectDrivers_meets h E controller context located
    by_cases hnil : located = []
    · rw [if_pos hnil]
      exact iff_of_true ⟨_, rfl, fun hne => absurd hnil hne⟩ (.inl hnil)
    by_cases halloc : alloc = false
    · rw [if_neg hnil, if_pos halloc]
      exact iff_of_true ⟨_, rfl, fun _ htrue => absurd (halloc.symm.trans htrue) (by decide)⟩
        (.inr (.inl halloc))
    rw [if_neg hnil, if_neg halloc]
    have halloc' : alloc = true := by simpa using halloc
    generalize db₁.bindings (db₁.namedDrivers E controller context) = named at hcollect ⊢
    generalize db₁.bindings located = others at hcollect ⊢
    cases hc : db₁.collectDrivers E controller context located with
    | error e =>
      -- the array is written past its end
      have hlt := hcollect.2 e hc
      refine iff_of_false ?_ ?_
      · rintro ⟨r, ⟨⟩, -⟩
      · rintro (h0 | h0 | h0)
        · exact hnil h0
        · exact halloc h0
        · omega
    | ok r =>
      obtain ⟨db₂, sortIndex, sorted⟩ := r
      obtain ⟨rfl, rfl, hfits⟩ := hcollect.1 _ hc
      dsimp only at hfits
      by_cases hn : (named ++ others).eraseDups.length = located.length
      · obtain ⟨sorted, calls, oneStarted, hsort, hstart, horder⟩ :=
          sortAndStart_spec E named others hn
        refine iff_of_true ?_ (.inr (.inr hn))
        simp only [bind, Except.bind, hsort, hstart]
        exact ⟨_, rfl, fun _ _ => ⟨_, rfl, horder⟩⟩
      · have hsort : sortRemaining E.version (located.length - named.eraseDups.length)
            named.eraseDups.length (named ++ others).eraseDups = .error .unfilled := by
          have hle := eraseDups_length_le (List.prefix_append named others)
          exact sortRemaining_unfilled _ _ _ _ hle (by omega)
        refine iff_of_false ?_ ?_
        · simp only [bind, Except.bind, hsort]
          rintro ⟨r, ⟨⟩, -⟩
        · rintro (h0 | h0 | h0)
          · exact hnil h0
          · exact halloc h0
          · exact hn h0

end Database

/-! ## Handles that share an instance -/

/-- No driver supports anything. -/
def unsupporting : DriverCode where
  platformDrivers _ := []
  busDrivers _ := []
  version _ := 0
  supported _ _ := .unsupported
  start _ _ := .unsupported

/-- The handle 3 exposes the driver binding instance 100. -/
def oneBinding : Database .efi64 :=
  ((Database.initializeHandle .efi64).installProtocolInterface ⟨some 1, some 2, some 3⟩ (some 0)
    (some driverBindingProtocol) .native 100).1

/-- The handle 6 exposes it, too. -/
def sharedBinding : Database .efi64 :=
  (oneBinding.installProtocolInterface (takeFree 4 5 6 oneBinding) (some 0)
    (some driverBindingProtocol) .native 100).1

theorem oneBinding_wellFormed : oneBinding.WellFormed := by
  have hinstalled := Database.WellFormed.initial.lists.installProtocolInterface
    (firstPool_fresh .efi64) 0 driverBindingProtocol 100
  obtain ⟨c, hc⟩ := hinstalled.lists Database.WellFormed.initial.lists
  exact hc.wellFormed

theorem sharedBinding_wellFormed : sharedBinding.WellFormed := by
  have hinstalled := oneBinding_wellFormed.lists.installProtocolInterface
    (takeFree_fresh (e := 4) (p := 5) (h := 6) (by decide) (by decide) (by decide) (by decide)
      (by decide) (by decide) oneBinding) 0 driverBindingProtocol 100
  obtain ⟨c, hc⟩ := hinstalled.lists oneBinding_wellFormed.lists
  exact hc.wellFormed

/-- The driver of version 2, with the instance 200, supports nothing; the other one is started. -/
def olderStarts : DriverCode where
  platformDrivers _ := []
  busDrivers _ := []
  version interface := if interface = 200 then 2 else 1
  supported _ interface := if interface = 100 then .success else .unsupported
  start _ interface := if interface = 100 then .success else .unsupported

/-- The handle 6 exposes an instance of its own. -/
def twoBindings : Database .efi64 :=
  (oneBinding.installProtocolInterface (takeFree 4 5 6 oneBinding) (some 0)
    (some driverBindingProtocol) .native 200).1

theorem twoBindings_wellFormed : twoBindings.WellFormed := by
  have hinstalled := oneBinding_wellFormed.lists.installProtocolInterface
    (takeFree_fresh (e := 4) (p := 5) (h := 6) (by decide) (by decide) (by decide) (by decide)
      (by decide) (by decide) oneBinding) 0 driverBindingProtocol 200
  obtain ⟨c, hc⟩ := hinstalled.lists oneBinding_wellFormed.lists
  exact hc.wellFormed

theorem connectSingleController_twoBindings :
    twoBindings.ConnectsInOrder olderStarts [true, true] true 3 [] none ∧
      (twoBindings.connectSingleController olderStarts [true, true] true 3 [] none).map
        (fun r => (r.status, r.selection.map Selection.sorted)) =
          .ok (.success, some [200, 100]) :=
  ⟨(Database.connectSingleController_inOrder_iff twoBindings_wellFormed olderStarts [true, true]
    true 3 [] none).mpr (.inr (.inr rfl)), rfl⟩

/-- Two handles are found, and one entry of the array is filled. -/
theorem not_connectsInOrder_sharedBinding :
    sharedBinding.WellFormed ∧
      (libLocateHandle sharedBinding .byProtocol (some driverBindingProtocol) none
        [true, true]).2 = [3, 6] ∧
      (∀ fault, sharedBinding.connectSingleController unsupporting [true, true] true 3 [] none =
        .error fault ↔ fault = .unfilled) ∧
      ¬ sharedBinding.ConnectsInOrder unsupporting [true, true] true 3 [] none := by
  have hcall : sharedBinding.connectSingleController unsupporting [true, true] true 3 [] none =
      .error .unfilled := rfl
  refine ⟨sharedBinding_wellFormed, rfl, fun fault => ?_, ?_⟩
  · rw [hcall]
    exact ⟨fun h => (Except.error.inj h).symm, fun h => h ▸ rfl⟩
  · rintro ⟨r, hr, -⟩
    rw [hcall] at hr
    cases hr

end EfiCore.Hand
