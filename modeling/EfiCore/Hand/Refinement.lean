import EfiCore.Hand.Lists

/-! # The database refines the catalogue

One lemma for what each service does to the installations, from these the simulation of a
step, and from it the result about runs.
-/

namespace EfiCore.Hand

open EfiCore.Lib

variable {A : Arch}

namespace Database

variable {db : Database A}

/-! ## Idle databases -/

theorem Idle.update {db' : Database A} (h : db.Idle)
    (hold : ∀ p prot, db'.interfaces p = some prot →
      (∃ prot', db.interfaces p = some prot' ∧ prot.openList = prot'.openList ∧
        prot.openListCount = prot'.openListCount) ∨
      (prot.openList = [] ∧ prot.openListCount = 0)) : db'.Idle := by
  intro p prot hp
  obtain ⟨prot', hp', hl, hc⟩ | hempty := hold p prot hp
  · rw [hl, hc]
    exact h p prot' hp'
  · exact hempty

theorem Idle.congr {db' : Database A} (h : db.Idle) (hi : db'.interfaces = db.interfaces) :
    db'.Idle := by
  intro p prot hp
  exact h p prot (by rw [← hi]; exact hp)

/-! ## Handles -/

section Shows

variable {c : Catalogue}

theorem Shows.lists (h : db.Shows c) : db.Lists c := ⟨h.wellFormed, h.same⟩

/-- Of a database that lists a catalogue the rest is that nothing is open. -/
theorem Lists.shows (h : db.Lists c) (hunused : ∀ p, db.openListOf p = []) : db.Shows c := by
  refine ⟨h.wellFormed, fun p prot hp => ?_, h.same⟩
  have hopen := hunused p
  rw [openListOf, hp] at hopen
  have hcount := h.wellFormed.counted p prot hp
  rw [show prot.openList = [] from hopen] at hcount
  exact ⟨hopen, hcount⟩

theorem Idle.openListOf (h : db.Idle) (p : Addr) : db.openListOf p = [] := by
  unfold Database.openListOf
  cases hp : db.interfaces p with
  | none => rfl
  | some prot => exact (h p prot hp).1

theorem Shows.mem (h : db.Shows c) (a : Addr) (g : Guid) (i : Nat) :
    (a, i) ∈ c.installed g ↔ ∃ p, db.Holds p a g i := h.lists.mem a g i

theorem Shows.carries (h : db.Shows c) (a : Addr) (g : Guid) :
    c.Carries a g ↔ ∃ p i, db.Holds p a g i := h.lists.carries a g

theorem Shows.live (h : db.Shows c) (a : Addr) :
    c.Live a ↔ ∃ handle, db.handles a = some handle := h.lists.live a

theorem Shows.validateHandle_live (h : db.Shows c) {a : Addr} (ha : c.Live a) :
    db.validateHandle a = .success := h.lists.validateHandle_live ha

theorem Shows.validateHandle_dead (h : db.Shows c) {a : Addr} (ha : ¬ c.Live a) :
    db.validateHandle a = .invalidParameter := h.lists.validateHandle_dead ha

/-! ## HandleProtocol -/

/-- `HandleProtocol` on a handle that carries the protocol. -/
theorem Shows.handleProtocol_carries (h : db.Shows c) {a : Addr} {g : Guid} {i : Nat}
    (ha : (a, i) ∈ c.installed g) :
    db.handleProtocol a (some g) true = (db, .success, some i) := by
  obtain ⟨p, hp⟩ := (h.mem a g i).mp ha
  obtain ⟨prot, entry, hprot, -⟩ := id hp
  obtain ⟨openList, hlength, heq⟩ := h.lists.handleProtocol_holds hp hprot
  -- nothing is open, so no entry is counted up
  have hnil := (h.idle p prot hprot).1
  rw [hnil, List.length_nil, List.length_eq_zero_iff] at hlength
  rw [heq, hlength, ← hnil, withOpenList_self hprot]

theorem Shows.handleProtocol_unsupported (h : db.Shows c) {a : Addr} {g : Guid}
    (ha : c.Live a) (hg : ¬ c.Carries a g) :
    db.handleProtocol a (some g) true = (db, .unsupported, none) :=
  h.lists.handleProtocol_unsupported ha hg

theorem Shows.handleProtocol_dead (h : db.Shows c) {a : Addr} (ha : ¬ c.Live a)
    (g : Option Guid) (interface : Bool) :
    db.handleProtocol a g interface = (db, .invalidParameter, none) :=
  h.lists.handleProtocol_dead ha g interface

/-! ## Installing -/

theorem SameContents.shows {db' : Database A} (hs : SameContents db db') (h : db.Shows c) :
    db'.Shows c := by
  refine (hs.lists c h.lists).shows fun p => ?_
  have hlength := (hs.interfaces p).openList
  rwa [h.idle.openListOf, List.length_nil, List.length_eq_zero_iff] at hlength

/-- `InstallProtocolInterface` is a step of the catalogue. -/
theorem Installed.step {pool : InstallPool} {a : Addr} {g : Guid} {i : Nat} {db' : Database A}
    {status : Status} {handle : Option Addr} (hi : Installed db c pool a g i db' status handle)
    (h : db.Shows c) :
    ∃ c', Catalogue.Step c (.install pool (some a) (some g) .native i status handle) c' ∧
      db'.Shows c' := by
  cases hi with
  | refused hstatus hrefuses hsame =>
    exact ⟨c, .installFails hstatus hrefuses, hsame.shows h⟩
  | @installed x p hnew hhandle hlists hp hunused hrest =>
    have hshows : db'.Shows (c.add g x i hnew) := by
      refine hlists.shows fun q => ?_
      by_cases hq : q = p
      · rw [hq, hunused]
      · have hlength := (hrest q hq).openList
        rwa [h.idle.openListOf, List.length_nil, List.length_eq_zero_iff] at hlength
    obtain ⟨rfl, hx, h0, hdead, _⟩ | ⟨rfl, h0, hlive, _⟩ := hhandle
    · exact ⟨_, .installNew hnew hx h0 hdead, hshows⟩
    · exact ⟨_, .install hnew h0 hlive, hshows⟩

theorem Shows.install (h : db.Shows c) {pool : InstallPool} (hfresh : pool.Fresh db)
    (userHandle : Option Addr) (protocol : Option Guid) (interfaceType : InterfaceType) (i : Nat) :
    ∃ c', Catalogue.Step c
        (.install pool userHandle protocol interfaceType i
          (db.installProtocolInterface pool userHandle protocol interfaceType i).2.1
          (db.installProtocolInterface pool userHandle protocol interfaceType i).2.2) c' ∧
      (db.installProtocolInterface pool userHandle protocol interfaceType i).1.Shows c' := by
  cases userHandle with
  | none => exact ⟨c, .installFails (by rintro ⟨⟩) (.noHandle rfl), h⟩
  | some a =>
    cases protocol with
    | none => exact ⟨c, .installFails (by rintro ⟨⟩) (.noProtocol rfl), h⟩
    | some g =>
      by_cases hnative : interfaceType = .native
      · subst hnative
        exact (h.lists.installProtocolInterface hfresh a g i).step h
      · unfold installProtocolInterface
        dsimp only
        rw [if_pos hnative]
        exact ⟨c, .installFails (by rintro ⟨⟩) (.notNative hnative), h⟩

/-! ## Uninstalling and reinstalling -/

/-- Nothing has to be disconnected. -/
theorem Shows.disconnect (h : db.Shows c) {p : Addr} {prot : ProtocolInterface A}
    (hp : db.interfaces p = some prot) (D : Drivers A) (fuel : Nat) (a : Addr) :
    db.disconnectControllersUsingProtocolInterface D (fuel + 1) a p = some (db, .success) :=
  h.wellFormed.toLinked.disconnect_unused hp (h.idle p prot hp).1 D fuel a

theorem Shows.uninstallUnused (h : db.Shows c) {p a : Addr} {g : Guid} {i : Nat}
    (hholds : db.Holds p a g i) :
    (db.uninstallUnused a g i).2 = .success ∧
      (db.uninstallUnused a g i).1.Shows (c.remove g a) := by
  obtain ⟨hstatus, hlists, -, -, hgone, hrest⟩ := h.lists.uninstallUnused hholds
  refine ⟨hstatus, hlists.shows fun q => ?_⟩
  by_cases hq : q = p
  · rw [hq, openListOf, hgone]
  · have hlength := (hrest q hq).openList
    rwa [h.idle.openListOf, List.length_nil, List.length_eq_zero_iff] at hlength

theorem Shows.not_holds (h : db.Shows c) {a : Addr} {g : Guid} {i : Nat}
    (hnone : db.findProtocolInterface a g i = none) : (a, i) ∉ c.installed g :=
  h.lists.not_holds hnone

theorem Shows.uninstall (h : db.Shows c) (fuel : Nat) (a : Addr) (protocol : Option Guid)
    (i : Nat) :
    ∃ db' status, db.uninstallProtocolInterface (Drivers.idle A) (fuel + 1) a protocol i =
        some (db', status) ∧
      ∃ c', Catalogue.Step c (.uninstall a protocol i status) c' ∧ db'.Shows c' := by
  unfold uninstallProtocolInterface
  cases protocol with
  | none => exact ⟨db, _, rfl, c, .uninstallFails (.invalid (.inl rfl)), h⟩
  | some g =>
    by_cases hlive : c.Live a
    · rw [h.validateHandle_live hlive]
      dsimp only
      cases hfind : db.findProtocolInterface a g i with
      | none =>
        exact ⟨db, _, rfl, c, .uninstallFails (.notFound g rfl hlive (h.not_holds hfind)), h⟩
      | some p =>
        have hholds := (h.wellFormed.findProtocolInterface a g i p).mp hfind
        obtain ⟨prot, _, hp, _⟩ := id hholds
        obtain ⟨hsuccess, hshows⟩ := h.uninstallUnused hholds
        dsimp only
        rw [h.disconnect hp]
        have hstep := @Catalogue.Step.uninstall c a g i ((h.mem a g i).mpr ⟨p, hholds⟩)
        rw [← hsuccess] at hstep
        exact ⟨_, _, rfl, _, hstep, hshows⟩
    · rw [h.validateHandle_dead hlive]
      exact ⟨db, _, rfl, c, .uninstallFails (.invalid (.inr hlive)), h⟩

theorem Shows.reinstallUnused (h : db.Shows c) {p a : Addr} {g : Guid} {old : Nat} (new : Nat)
    (hholds : db.Holds p a g old) :
    (db.reinstallUnused (Drivers.idle A) a g old new).2 = .success ∧
      (db.reinstallUnused (Drivers.idle A) a g old new).1.Shows (c.replace g a new) := by
  obtain ⟨prot, entry, hp, rfl, rfl, he, rfl⟩ := id hholds
  obtain ⟨handle, ha⟩ := h.wellFormed.handle_of_interface hp
  have hpi : ((db.removeByProtocol prot.protocol p).touchHandle prot.handle).interfaces p =
      some prot := by
    simp only [touchHandle, Database.modifyHandle, removeByProtocol, he, hp]
  have heq : db.reinstallUnused (Drivers.idle A) prot.handle entry.protocolID prot.interface new =
      ((db.moved prot.handle p prot.protocol new).notifyProtocolEntry prot.protocol,
        .success) := by
    unfold Database.reinstallUnused
    rw [h.wellFormed.removeInterfaceFromProtocol hholds hp]
    dsimp only
    rw [hpi]
    rfl
  rw [heq]
  have hw := h.wellFormed.moved new hp ha he
  have hi := @moved_interfaces _ _ p prot.handle _ new _ _ hp he
  refine ⟨rfl, hw.notifyProtocolEntry _, ?_, ?_⟩
  · refine (h.idle.update fun q r hq => ?_).congr (notifyProtocolEntry_interfaces _ _)
    rw [hi] at hq
    by_cases hqp : q = p
    · subst hqp
      rw [Function.update_self] at hq
      cases hq
      exact .inl ⟨prot, hp, rfl, rfl⟩
    · rw [Function.update_of_ne hqp] at hq
      exact .inl ⟨r, hq, rfl, rfl⟩
  · intro g
    rw [notifyProtocolEntry_installations,
      h.wellFormed.installations_update hw.toLinked he (moved_entries he) rfl]
    · have hlist : (db.moved prot.handle p prot.protocol new).listing
          (entry.protocols.erase p ++ [p]) =
          (c.installed entry.protocolID).filter (·.1 ≠ prot.handle) ++ [(prot.handle, new)] := by
        rw [listing, List.filterMap_append]
        congr 1
        · rw [← h.same, h.wellFormed.installations_of_entry he]
          refine listing_erase (h.wellFormed.byProtocol.nodup _ _ (by rw [entryLists, he]; rfl))
            (h.wellFormed.handle_eq_iff hp he) ?_
          intro q _ hq
          rw [hi, Function.update_of_ne hq]
        · rw [List.filterMap_cons, hi, Function.update_self]
          rfl
      rw [hlist, Catalogue.replace_installed, show db.installations = c.installed from funext h.same]
    · intro q r hq hr
      rw [hi, Function.update_of_ne]
      rintro rfl
      rw [hp] at hq
      cases hq
      exact hr rfl

theorem Shows.reinstall (h : db.Shows c) (fuel : Nat) (a : Addr) (protocol : Option Guid)
    (old new : Nat) :
    ∃ db' status, db.reinstallProtocolInterface (Drivers.idle A) (fuel + 1) a protocol old new =
        some (db', status) ∧
      ∃ c', Catalogue.Step c (.reinstall a protocol old new status) c' ∧ db'.Shows c' := by
  unfold reinstallProtocolInterface
  by_cases hlive : c.Live a
  · rw [h.validateHandle_live hlive]
    cases protocol with
    | none => exact ⟨db, _, rfl, c, .reinstallFails (.invalid (.inl rfl)), h⟩
    | some g =>
      dsimp only
      cases hfind : db.findProtocolInterface a g old with
      | none =>
        exact ⟨db, _, rfl, c, .reinstallFails (.notFound g rfl hlive (h.not_holds hfind)), h⟩
      | some p =>
        have hholds := (h.wellFormed.findProtocolInterface a g old p).mp hfind
        obtain ⟨prot, _, hp, _⟩ := id hholds
        obtain ⟨hsuccess, hshows⟩ := h.reinstallUnused new hholds
        dsimp only
        rw [h.disconnect hp]
        have hstep := @Catalogue.Step.reinstall c a g old new ((h.mem a g old).mpr ⟨p, hholds⟩)
        rw [← hsuccess] at hstep
        exact ⟨_, _, rfl, _, hstep, hshows⟩
  · rw [h.validateHandle_dead hlive]
    exact ⟨db, _, rfl, c, .reinstallFails (.invalid (.inr hlive)), h⟩

/-! ## Locating -/

theorem Shows.locateHandle (h : db.Shows c) (searchType : SearchType) (protocol : Option Guid)
    (searchKey : Option Addr) (bufferSize : Nat) :
    (db.locateHandle searchType protocol searchKey bufferSize).1.Shows c :=
  (SameContents.locateHandle db searchType protocol searchKey bufferSize).shows h

end Shows

end Database

/-! ## Runs -/

theorem Step.simulates {db db' : Database A} {a : Action} {c : Catalogue} (h : db.Shows c)
    (hs : Step db a db') : ∃ c', catalogue.step c a c' ∧ db'.Shows c' := by
  cases hs with
  | @install _ pool userHandle protocol interfaceType interface status handle hfresh heq =>
    obtain ⟨c', hstep, hshows⟩ := h.install hfresh userHandle protocol interfaceType interface
    rw [heq] at hstep hshows
    exact ⟨c', hstep, hshows⟩
  | @uninstall _ fuel a protocol interface status heq =>
    obtain ⟨db'', status', heq', c', hstep, hshows⟩ := h.uninstall fuel a protocol interface
    rw [heq] at heq'
    cases heq'
    exact ⟨c', hstep, hshows⟩
  | @reinstall _ fuel a protocol old new status heq =>
    obtain ⟨db'', status', heq', c', hstep, hshows⟩ := h.reinstall fuel a protocol old new
    rw [heq] at heq'
    cases heq'
    exact ⟨c', hstep, hshows⟩
  | @locate _ searchType protocol searchKey bufferSize status resultSize buffer heq =>
    have hshows := h.locateHandle searchType protocol searchKey bufferSize
    rw [heq] at hshows
    exact ⟨c, .locate, hshows⟩

theorem Database.Shows.initial : (Database.initializeHandle A).Shows Catalogue.empty :=
  ⟨.initial, by rintro _ _ ⟨⟩, fun _ => rfl⟩

end EfiCore.Hand
