import EfiCore.Hand.Catalogue

/-! # Register-notify

`RegisterProtocolNotify`, and the calls that ask a registration for the next interface:
`LocateProtocol`, and `LocateHandleBuffer` over `LocateHandle`.

`ProtocolDatabaseLock` is released while drivers connect and disconnect, so calls of the
services interleave and nest.  What is atomic is a *section*: what one call does between taking
the lock and giving it up.  `sections` is the machine whose steps are sections, in any order; a
whole call is a path of it as long as its drivers' calls are.
-/

namespace EfiCore.Hand

open EfiCore.Lib

/-- What the allocations of `RegisterProtocolNotify` return, and what the variable `ProtNotify`
    holds when nothing is assigned to it. -/
structure RegisterPool where
  entry : Option Addr
  notify : Option Addr
  unset : Option Addr
  deriving DecidableEq, Repr

namespace Database

variable {A : Arch}

/-! ## RegisterProtocolNotify -/

/-- The new record starts at the list head and goes to the tail of the entry's list. -/
def addNotify (db : Database A) (n e : Addr) (event : Nat) : Database A :=
  { db with notifies := Function.update db.notifies n (some ⟨e, event, none⟩) }.modifyEntry e
    fun entry => { entry with notify := entry.notify ++ [n] }

/-- `RegisterProtocolNotify`; also what is written to `*Registration`. -/
def registerProtocolNotify (db : Database A) (pool : RegisterPool) (g : Guid) (event : Nat) :
    Database A × Status × Option Addr :=
  match db.findOrCreateEntry g pool.entry with
  -- without an entry `ProtNotify` is tested all the same
  | (db, none) =>
    match pool.unset with
    | some n => (db, .success, some n)
    | none => (db, .outOfResources, none)
  | (db, some e) =>
    match pool.notify with
    | none => (db, .outOfResources, none)
    | some n => (db.addNotify n e event, .success, some n)

/-! ## LocateProtocol -/

/-- What `GetNextLocateByProtocol` first returns on the interfaces `ps`: the handle, and
    `*Interface`, which every interface it looks at overwrites. -/
def nextByProtocol (db : Database A) (interface : Nat) :
    List Addr → Database A × Option Addr × Nat
  | [] => (db, none, interface)
  | p :: ps =>
    match db.interfaces p with
    | none => db.nextByProtocol interface ps
    | some prot =>
      match db.handles prot.handle with
      | none => db.nextByProtocol prot.interface ps
      | some handle =>
        if handle.locateRequest = db.efiLocateHandleRequest then
          db.nextByProtocol prot.interface ps
        else
          (db.modifyHandle prot.handle fun handle =>
            { handle with locateRequest := db.efiLocateHandleRequest },
            some prot.handle, prot.interface)

/-- The interface `GetNextLocateByRegisterNotify` finds for the registration `n`. -/
def nextByRegisterNotify (db : Database A) (n : Addr) : Option (ProtocolInterface A) :=
  match db.notifies n with
  | none => none
  | some notify =>
    ((db.entries notify.protocol).bind fun e => flink e.protocols notify.position).bind
      db.interfaces

/-- `LocateProtocol`; also `*Interface` afterwards.  `interface` says whether there is a place to
    put it. -/
def locateProtocol (db : Database A) (g : Guid) (registration : Option Addr) (interface : Bool) :
    Database A × Status × Nat :=
  if interface = false then (db, .invalidParameter, 0)
  else
    match registration with
    | none =>
      match (db.findProtocolEntry g).bind db.entries with
      | none => (db.newRequest, .notFound, 0)
      | some entry =>
        match db.newRequest.nextByProtocol 0 entry.protocols with
        | (db, none, interface) => (db, .notFound, interface)
        | (db, some _, interface) => (db, .success, interface)
    | some n =>
      match db.nextByRegisterNotify n with
      | none => (db.newRequest, .notFound, 0)
      | some prot => (db.newRequest.advanceNotify n, .success, prot.interface)

/-! ## LocateHandleBuffer -/

/-- `LocateHandleBuffer`; also `*NumberHandles` and the handles in the buffer.  `arguments` says
    whether there are places for both, `memory` whether the buffer is allocated. -/
def locateHandleBuffer (db : Database A) (searchType : SearchType) (protocol : Option Guid)
    (searchKey : Option Addr) (arguments memory : Bool) :
    Database A × Status × Nat × List Addr :=
  if arguments = false then (db, .invalidParameter, 0, [])
  else
    match db.locateHandle searchType protocol searchKey 0 with
    | (db, .bufferTooSmall, bufferSize, _) =>
      if memory = false then (db, .outOfResources, 0, [])
      else
        match db.locateHandle searchType protocol searchKey bufferSize with
        | (db, .success, bufferSize, buffer) =>
          (db, .success, bufferSize / A.pointerSize, buffer)
        | (db, status, _, buffer) => (db, status, 0, buffer)
    | (db, .invalidParameter, _, _) => (db, .invalidParameter, 0, [])
    | (db, _, _, _) => (db, .notFound, 0, [])

end Database

/-! ## Sections -/

/-- What a section did, as far as registrations are concerned.  An installation is named by its
    `PROTOCOL_INTERFACE`. -/
inductive Event where
  | install (g : Guid) (record handle : Addr) (interface : Nat)
  | uninstall (g : Guid) (record : Addr)
  | reinstall (g : Guid) (record handle : Addr) (interface : Nat)
  | register (g : Guid) (n : Addr)
  | locateHandle (n : Addr) (bufferSize : Nat) (status : Status) (buffer : List Addr)
  | locateProtocol (n : Addr) (status : Status) (interface : Nat)
  | other
  deriving DecidableEq, Repr

/-- The allocations of one call: unused blocks, each given out once. -/
structure RegisterPool.Fresh {A : Arch} (pool : RegisterPool) (db : Database A) : Prop where
  entry : ∀ a, pool.entry = some a → db.Fresh a
  notify : ∀ a, pool.notify = some a → db.Fresh a
  apart : ∀ a b, pool.entry = some a → pool.notify = some b → a ≠ b

open Database in
/-- The sections of the services, and what each did. -/
inductive Section {A : Arch} : Database A → Event → Database A → Prop
  | install {db db' pool h g status interface p h'} : pool.Fresh db → status ≠ .success →
      pool.interface = some p →
      db.installLocked pool h g status interface = (db', .success, some h') →
      Section db (.install g p h' interface) db'
  | installFails {db db' pool h g status interface status' h'} : pool.Fresh db →
      db.installLocked pool h g status interface = (db', status', h') → status' ≠ .success →
      Section db .other db'
  | uninstall {db h g interface p} : db.findProtocolInterface h g interface = some p →
      Section db (.uninstall g p) (db.uninstallUnused h g interface).1
  | uninstallFails {db h g interface} : db.findProtocolInterface h g interface = none →
      Section db .other (db.uninstallUnused h g interface).1
  /-- `ReinstallProtocolInterface` up to where it lets drivers connect. -/
  | reinstall {db db' h g old new p prot} :
      db.removeInterfaceFromProtocol h g old = (db', some p) → db'.interfaces p = some prot →
      Section db (.reinstall g p prot.handle new)
        ((db'.touchHandle h).reinsertInterface p prot.protocol new)
  | reinstallFails {db db' h g old} :
      db.removeInterfaceFromProtocol h g old = (db', none) → Section db .other (db'.touchHandle h)
  /-- The end of `ReinstallProtocolInterface`. -/
  | notify {db e} : Section db .other (db.notifyProtocolEntry e)
  | register {db pool g event e n} : pool.Fresh db →
      (db.findOrCreateEntry g pool.entry).2 = some e → pool.notify = some n →
      Section db (.register g n) (db.registerProtocolNotify pool g event).1
  | registerFails {db pool g event} : pool.Fresh db →
      (db.findOrCreateEntry g pool.entry).2 = none ∨ pool.notify = none →
      Section db .other (db.registerProtocolNotify pool g event).1
  | locateHandle {db db' protocol n bufferSize status resultSize buffer} :
      db.locateHandle .byRegisterNotify protocol (some n) bufferSize =
        (db', status, resultSize, buffer) →
      Section db (.locateHandle n bufferSize status buffer) db'
  | locateOther {db searchType protocol searchKey bufferSize} :
      searchType ≠ .byRegisterNotify ∨ searchKey = none →
      Section db .other (db.locateHandle searchType protocol searchKey bufferSize).1
  | locateProtocol {db db' g n status interface} :
      db.locateProtocol g (some n) true = (db', status, interface) →
      Section db (.locateProtocol n status interface) db'
  | locateFirst {db g interface} : Section db .other (db.locateProtocol g none interface).1
  | openProtocol {db db' a memory status interface} :
      db.openProtocol a memory = .returned db' status interface → Section db .other db'
  /-- The end of `OpenProtocol` when it had drivers to disconnect. -/
  | appendOpen {db p a memory} : Section db .other (db.appendOpen p a memory).1
  | closeProtocol {db h g image controller} :
      Section db .other (db.closeProtocol h g image controller).1
  | closePassive {db p} : Section db .other (db.closePassive p)

def sections (A : Arch) : Machine (Database A) Event :=
  ⟨(· = Database.initializeHandle A), Section⟩

end EfiCore.Hand
