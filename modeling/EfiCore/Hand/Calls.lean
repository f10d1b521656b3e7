import EfiCore.Hand.Sections

/-! # The services are runs of sections

Each service that edits the database or asks a registration, started in any state, is a path of
sections, given that the drivers it connects and disconnects in between only call services
themselves.  So a run in which calls nest and interleave is a run of sections.
-/

namespace EfiCore.Hand

open EfiCore.Lib

variable {A : Arch}

/-- Sections lead from one database to another. -/
def Served (db db' : Database A) : Prop := ∃ as, (sections A).Path Machine.anyStep db as db'

theorem Served.refl (db : Database A) : Served db db := ⟨[], .nil⟩

theorem Served.trans {db db' db'' : Database A} (h : Served db db') (h' : Served db' db'') :
    Served db db'' := by
  obtain ⟨as, hp⟩ := h
  obtain ⟨bs, hp'⟩ := h'
  exact ⟨as ++ bs, hp.append hp'⟩

theorem Section.served {db db' : Database A} {e : Event} (h : Section db e db') :
    Served db db' := ⟨[e], .cons trivial h .nil⟩

/-- The drivers that are connected and disconnected only call services themselves. -/
structure Drivers.Served (D : Drivers A) : Prop where
  disconnect : ∀ db h a, Hand.Served db (D.disconnectController db h a).1
  connect : ∀ db h, Hand.Served db (D.connectController db h)

section Calls

variable {db db' : Database A} {D : Drivers A}

theorem handleProtocol_returned (db : Database A) (h : Addr) (g : Option Guid) (interface : Bool) :
    ∃ status i, db.openProtocol ⟨h, g, interface, 0, 0, openByHandleProtocol⟩ false =
      .returned (db.handleProtocol h g interface).1 status i := by
  unfold Database.handleProtocol
  cases hopen : db.openProtocol ⟨h, g, interface, 0, 0, openByHandleProtocol⟩ false with
  | returned db' status i => exact ⟨status, i, rfl⟩
  | disconnects p i => exact absurd rfl (Exclusive.openProtocol_disconnects hopen).2

theorem openProtocol_handles {a : OpenArgs} {memory : Bool} {status : Status} {i : Option Nat}
    (h : db.openProtocol a memory = .returned db' status i) : db'.handles = db.handles := by
  obtain rfl | ⟨_, _, _, _, _, rfl⟩ | ⟨_, _, _, rfl, _⟩ := Exclusive.openProtocol_returned h
  · rfl
  · rfl
  · unfold Database.appendOpen
    split_ifs <;> rfl

theorem Fresh.openProtocol {a : OpenArgs} {memory : Bool} {status : Status} {i : Option Nat}
    (h : db.openProtocol a memory = .returned db' status i) {x : Addr} (hx : db.Fresh x) :
    db'.Fresh x := by
  have hs := SameListing.openProtocol h
  refine ⟨hx.ne_null, ?_, ?_, ?_, ?_⟩
  · rw [openProtocol_handles h]
    exact hx.handles
  · rw [hs.entries]
    exact hx.entries
  · have hface := hs.faces x
    rw [hx.interfaces, Option.map_none, Option.map_eq_none_iff] at hface
    exact hface
  · rw [hs.notifies]
    exact hx.notifies

theorem installLocked_served {pool : InstallPool} (hfresh : pool.Fresh db) {h : Addr} {g : Guid}
    {status : Status} {interface : Nat} (hstatus : status ≠ .success) :
    Served db (db.installLocked pool h g status interface).1 := by
  obtain ⟨db', status', h', hr⟩ : ∃ db' status' h',
    db.installLocked pool h g status interface = (db', status', h') := ⟨_, _, _, rfl⟩
  rw [hr]
  by_cases hok : status' = .success
  · subst hok
    have hfound : ∃ p x, pool.interface = some p ∧ h' = some x := by
      unfold Database.installLocked at hr
      split at hr
      · cases hr
        exact absurd rfl hstatus
      · cases hp : pool.interface with
        | none =>
          rw [hp] at hr
          cases hr
          exact absurd rfl hstatus
        | some p =>
          rw [hp] at hr
          dsimp only at hr
          split at hr
          · split at hr
            · cases hr
              exact absurd rfl hstatus
            · cases hr
              exact ⟨p, _, rfl, rfl⟩
          · split at hr
            · cases hr
            · cases hr
              exact ⟨p, _, rfl, rfl⟩
    obtain ⟨p, x, hp, rfl⟩ := hfound
    exact (Section.install hfresh hstatus hp hr).served
  · exact (Section.installFails hfresh hr hok).served

theorem installProtocolInterface_served {pool : InstallPool} (hfresh : pool.Fresh db)
    (userHandle : Option Addr) (protocol : Option Guid) (interfaceType : InterfaceType)
    (interface : Nat) :
    Served db
      (db.installProtocolInterface pool userHandle protocol interfaceType interface).1 := by
  unfold Database.installProtocolInterface
  split
  · rename_i h g
    split
    · exact .refl db
    · split
      · exact installLocked_served hfresh nofun
      · obtain ⟨_, _, hopen⟩ := handleProtocol_returned db h (some g) true
        have hasked := (Section.openProtocol hopen).served
        split
        · rename_i heq
          rw [heq] at hasked
          exact hasked
        · rename_i hstatus heq
          rw [heq] at hasked hopen
          refine hasked.trans (installLocked_served ?_ hstatus)
          exact ⟨fun a ha => Fresh.openProtocol hopen (hfresh.entry a ha),
            fun a ha => Fresh.openProtocol hopen (hfresh.interface a ha),
            fun a ha => Fresh.openProtocol hopen (hfresh.handle a ha),
            hfresh.apart, hfresh.apart', hfresh.apart''⟩
  · exact .refl db

theorem disconnectDrivers_served (hD : D.Served) (h p : Addr) (fuel : Nat) (db : Database A)
    {r : Database A × Status} (hr : Database.disconnectDrivers D h p fuel db = some r) :
    Served db r.1 := by
  induction fuel generalizing db with
  | zero => cases hr
  | succ fuel ih =>
    unfold Database.disconnectDrivers at hr
    split at hr
    · cases hr
      exact .refl db
    · rename_i o _
      have hcall := hD.disconnect db h o.agentHandle
      split at hr
      · rename_i heq
        rw [heq] at hcall
        exact hcall.trans (ih _ hr)
      · rename_i heq
        rw [heq] at hcall
        cases hr
        exact hcall

theorem disconnectControllers_served (hD : D.Served) {fuel : Nat} {h p : Addr}
    {r : Database A × Status}
    (hr : db.disconnectControllersUsingProtocolInterface D fuel h p = some r) :
    Served db r.1 := by
  unfold Database.disconnectControllersUsingProtocolInterface at hr
  split at hr
  · cases hr
  · rename_i db₁ heq
    have hclose : Section db₁ .other (db₁.closePassive p) := .closePassive
    have hloop := (disconnectDrivers_served hD h p fuel db heq).trans hclose.served
    dsimp only at hr
    split at hr
    · split at hr
      · cases hr
        exact hloop.trans (hD.connect _ h)
      · cases hr
        exact hloop
    · cases hr
      exact hloop
  · rename_i heq
    cases hr
    exact disconnectDrivers_served hD h p fuel db heq

theorem uninstallUnused_served (db : Database A) (h : Addr) (g : Guid) (interface : Nat) :
    Served db (db.uninstallUnused h g interface).1 := by
  cases hf : db.findProtocolInterface h g interface with
  | none => exact (Section.uninstallFails hf).served
  | some p => exact (Section.uninstall hf).served

theorem uninstallProtocolInterface_served (hD : D.Served) {fuel : Nat} {h : Addr}
    {protocol : Option Guid} {interface : Nat} {r : Database A × Status}
    (hr : db.uninstallProtocolInterface D fuel h protocol interface = some r) :
    Served db r.1 := by
  unfold Database.uninstallProtocolInterface at hr
  split at hr
  · cases hr
    exact .refl db
  · split at hr
    · split at hr
      · cases hr
        exact .refl db
      · split at hr
        · cases hr
        · rename_i heq
          cases hr
          exact (disconnectControllers_served hD heq).trans (uninstallUnused_served _ h _ interface)
        · rename_i heq
          cases hr
          exact disconnectControllers_served hD heq
    · cases hr
      exact .refl db

theorem reinstallUnused_served (hD : D.Served) (db : Database A) (h : Addr) (g : Guid)
    (old new : Nat) : Served db (db.reinstallUnused D h g old new).1 := by
  unfold Database.reinstallUnused
  split
  · rename_i db₁ p hremove
    dsimp only
    split
    · rename_i prot hprot
      exact ((Section.reinstall hremove hprot).served.trans (hD.connect _ h)).trans
        Section.notify.served
    · -- an interface that was found is in the table
      rename_i hprot
      exfalso
      unfold Database.removeInterfaceFromProtocol at hremove
      split at hremove
      · rename_i q hf
        have hin : db.interfaces q ≠ none := by
          intro hnone
          unfold Database.findProtocolInterface at hf
          split at hf
          · have hmatch := List.find?_some hf
            simp [hnone] at hmatch
          · cases hf
        split at hremove
        · rename_i prot hq
          cases hremove
          refine hin ?_
          have hi : (db.removeByProtocol prot.protocol p).interfaces = db.interfaces := by
            unfold Database.removeByProtocol
            split <;> rfl
          rw [← hi]
          exact hprot
        · rename_i hq
          exact hin hq
      · cases hremove
  · rename_i hremove
    exact (Section.reinstallFails hremove).served

theorem reinstallProtocolInterface_served (hD : D.Served) {fuel : Nat} {h : Addr}
    {protocol : Option Guid} {old new : Nat} {r : Database A × Status}
    (hr : db.reinstallProtocolInterface D fuel h protocol old new = some r) : Served db r.1 := by
  unfold Database.reinstallProtocolInterface at hr
  split at hr
  · split at hr
    · cases hr
      exact .refl db
    · split at hr
      · cases hr
      · rename_i heq
        cases hr
        exact (disconnectControllers_served hD heq).trans (reinstallUnused_served hD _ h _ old new)
      · rename_i heq
        cases hr
        exact (disconnectControllers_served hD heq).trans (hD.connect _ h)
  · cases hr
    exact .refl db

theorem registerProtocolNotify_served {pool : RegisterPool} (hfresh : pool.Fresh db) (g : Guid)
    (event : Nat) : Served db (db.registerProtocolNotify pool g event).1 := by
  cases he : (db.findOrCreateEntry g pool.entry).2 with
  | none => exact (Section.registerFails hfresh (.inl he)).served
  | some e =>
    cases hn : pool.notify with
    | none => exact (Section.registerFails hfresh (.inr hn)).served
    | some n => exact (Section.register hfresh he hn).served

theorem locateHandle_served (db : Database A) (searchType : SearchType) (protocol : Option Guid)
    (searchKey : Option Addr) (bufferSize : Nat) :
    Served db (db.locateHandle searchType protocol searchKey bufferSize).1 := by
  by_cases hsearch : searchType ≠ .byRegisterNotify ∨ searchKey = none
  · exact (Section.locateOther hsearch).served
  · rw [not_or, not_not] at hsearch
    obtain ⟨rfl, hkey⟩ := hsearch
    obtain ⟨n, rfl⟩ := Option.ne_none_iff_exists'.mp hkey
    cases hr : db.locateHandle .byRegisterNotify protocol (some n) bufferSize
    exact (Section.locateHandle hr).served

theorem locateProtocol_served (db : Database A) (g : Guid) (registration : Option Addr)
    (interface : Bool) : Served db (db.locateProtocol g registration interface).1 := by
  cases registration with
  | none => exact Section.locateFirst.served
  | some n =>
    cases interface with
    | false => exact .refl db
    | true =>
      cases hr : db.locateProtocol g (some n) true
      exact (Section.locateProtocol hr).served

theorem locateHandleBuffer_served (db : Database A) (searchType : SearchType)
    (protocol : Option Guid) (searchKey : Option Addr) (arguments memory : Bool) :
    Served db (db.locateHandleBuffer searchType protocol searchKey arguments memory).1 := by
  unfold Database.locateHandleBuffer
  split
  · exact .refl db
  · have hask := locateHandle_served db searchType protocol searchKey 0
    split
    · rename_i db₁ bufferSize _ heq
      rw [heq] at hask
      split
      · exact hask
      · have hfetch := hask.trans
          (locateHandle_served db₁ searchType protocol searchKey bufferSize)
        split <;> rename_i heq' <;> rw [heq'] at hfetch <;> exact hfetch
    · rename_i heq
      rw [heq] at hask
      exact hask
    · rename_i heq
      rw [heq] at hask
      exact hask

end Calls

end EfiCore.Hand
