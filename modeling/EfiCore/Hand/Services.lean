import EfiCore.Hand.Open

/-! # Installing, reinstalling, uninstalling and locating

The services that change which interfaces exist, and `LocateHandle`.  What they ask of the
drivers (`ConnectController`, `DisconnectController`) is a parameter: any function of the
database, since the lock is released around these calls.
-/

namespace EfiCore.Hand

/-- `EFI_INTERFACE_TYPE` -/
inductive InterfaceType where
  | native
  | other
  deriving DecidableEq, Repr

/-- `EFI_LOCATE_SEARCH_TYPE` -/
inductive SearchType where
  | allHandles
  | byRegisterNotify
  | byProtocol
  | other
  deriving DecidableEq, Repr

/-- What the allocations of `InstallProtocolInterface` return. -/
structure InstallPool where
  entry : Option Addr
  interface : Option Addr
  handle : Option Addr
  deriving DecidableEq, Repr

/-- The connection services as the database sees them. -/
structure Drivers (A : Arch) where
  disconnectController : Database A → Addr → Addr → Database A × Status
  connectController : Database A → Addr → Database A

/-- Connecting and disconnecting do nothing. -/
def Drivers.idle (A : Arch) : Drivers A := ⟨fun db _ _ => (db, .success), fun db _ => db⟩

/-- `Position->Flink` on the list `l`. -/
def flink (l : List Addr) : Option Addr → Option Addr
  | none => l.head?
  | some p => (l.dropWhile (· ≠ p)).tail.head?

namespace Database

variable {A : Arch}

/-! ## InstallProtocolInterface -/

/-- `FindProtocolEntry (Protocol, TRUE)` -/
def findOrCreateEntry (db : Database A) (g : Guid) (memory : Option Addr) :
    Database A × Option Addr :=
  match db.findProtocolEntry g, memory with
  | some e, _ => (db, some e)
  | none, some e => (db.createProtocolEntry g e, some e)
  | none, none => (db, none)

/-- `InstallProtocolInterface` under the lock.  `status` is what it returns when it runs out of
    memory. -/
def installLocked (db : Database A) (pool : InstallPool) (h : Addr) (g : Guid)
    (status : Status) (interface : Nat) : Database A × Status × Option Addr :=
  match db.findOrCreateEntry g pool.entry with
  | (db, none) => (db, status, some h)
  | (db, some e) =>
    match pool.interface with
    | none => (db, status, some h)
    | some p =>
      if h = 0 then
        match pool.handle with
        | none => (db, status, some h)
        | some h =>
          (((db.newHandle h).linkInterface p h e interface).notifyProtocolEntry e, .success, some h)
      else if (db.handles h).isNone then (db, .invalidParameter, some h)
      else ((db.linkInterface p h e interface).notifyProtocolEntry e, .success, some h)

/-- `InstallProtocolInterface`; also the value of `*UserHandle` afterwards. -/
def installProtocolInterface (db : Database A) (pool : InstallPool) (userHandle : Option Addr)
    (protocol : Option Guid) (interfaceType : InterfaceType) (interface : Nat) :
    Database A × Status × Option Addr :=
  match userHandle, protocol with
  | some h, some g =>
    if interfaceType ≠ .native then (db, .invalidParameter, some h)
    else if h = 0 then db.installLocked pool h g .outOfResources interface
    else
      match db.handleProtocol h (some g) true with
      | (db, .success, _) => (db, .invalidParameter, some h)
      | (db, status, _) => db.installLocked pool h g status interface
  | _, _ => (db, .invalidParameter, userHandle)

/-! ## Disconnecting the users of an interface -/

def openListOf (db : Database A) (p : Addr) : List OpenData :=
  match db.interfaces p with
  | some prot => prot.openList
  | none => []

/-- The first loop of `DisconnectControllersUsingProtocolInterface`, in at most `fuel` rounds. -/
def disconnectDrivers (D : Drivers A) (h p : Addr) : Nat → Database A → Option (Database A × Status)
  | 0, _ => none
  | fuel + 1, db =>
    match (db.openListOf p).find? (·.byDriver) with
    | none => some (db, .success)
    | some o =>
      match D.disconnectController db h o.agentHandle with
      | (db, .success) => disconnectDrivers D h p fuel db
      | (db, _) => some (db, .accessDenied)

/-- Its second loop: the passive users are closed. -/
def closePassive (db : Database A) (p : Addr) : Database A :=
  db.modifyInterface p fun prot =>
    let keep := prot.openList.filter fun o => ¬ o.passive
    { prot with
      openList := keep
      openListCount :=
        prot.openListCount - BitVec.ofNat _ (prot.openList.length - keep.length) }

/-- `DisconnectControllersUsingProtocolInterface` -/
def disconnectControllersUsingProtocolInterface (db : Database A) (D : Drivers A) (fuel : Nat)
    (h p : Addr) : Option (Database A × Status) :=
  match disconnectDrivers D h p fuel db with
  | none => none
  | some (db, .success) =>
    let db := db.closePassive p
    match db.interfaces p with
    | some prot =>
      if prot.openListCount ≠ 0 then some (D.connectController db h, .accessDenied)
      else some (db, .success)
    | none => some (db, .success)
  | some (db, status) => some (db, status)

/-! ## UninstallProtocolInterface -/

/-- `UninstallProtocolInterface`, once no driver uses the interface. -/
def uninstallUnused (db : Database A) (h : Addr) (g : Guid) (interface : Nat) :
    Database A × Status :=
  match db.removeInterfaceFromProtocol h g interface with
  | (db, some p) => (((db.touchHandle h).freeInterface h p).freeHandleIfEmpty h, .success)
  | (db, none) => ((db.touchHandle h).freeHandleIfEmpty h, .notFound)

def uninstallProtocolInterface (db : Database A) (D : Drivers A) (fuel : Nat) (h : Addr)
    (protocol : Option Guid) (interface : Nat) : Option (Database A × Status) :=
  match protocol with
  | none => some (db, .invalidParameter)
  | some g =>
    match db.validateHandle h with
    | .success =>
      match db.findProtocolInterface h g interface with
      | none => some (db, .notFound)
      | some p =>
        match db.disconnectControllersUsingProtocolInterface D fuel h p with
        | none => none
        | some (db, .success) => some (db.uninstallUnused h g interface)
        | some (db, status) => some (db, status)
    | status => some (db, status)

/-! ## ReinstallProtocolInterface -/

/-- `ReinstallProtocolInterface`: the interface `p` gets its new value and goes to the tail of its
    entry. -/
def reinsertInterface (db : Database A) (p e : Addr) (interface : Nat) : Database A :=
  (db.modifyInterface p fun prot => { prot with interface }).modifyEntry e
    fun entry => { entry with protocols := entry.protocols ++ [p] }

/-- `ReinstallProtocolInterface`, once no driver uses the interface. -/
def reinstallUnused (db : Database A) (D : Drivers A) (h : Addr) (g : Guid)
    (old new : Nat) : Database A × Status :=
  match db.removeInterfaceFromProtocol h g old with
  | (db, some p) =>
    let db := db.touchHandle h
    match db.interfaces p with
    | some prot =>
      let db := D.connectController (db.reinsertInterface p prot.protocol new) h
      (db.notifyProtocolEntry prot.protocol, .success)
    | none => (db, .notFound)
  | (db, none) => (db.touchHandle h, .notFound)

def reinstallProtocolInterface (db : Database A) (D : Drivers A) (fuel : Nat) (h : Addr)
    (protocol : Option Guid) (old new : Nat) : Option (Database A × Status) :=
  match db.validateHandle h, protocol with
  | .success, some g =>
    match db.findProtocolInterface h g old with
    | none => some (db, .notFound)
    | some p =>
      match db.disconnectControllersUsingProtocolInterface D fuel h p with
      | none => none
      | some (db, .success) => some (db.reinstallUnused D h g old new)
      | some (db, status) => some (D.connectController db h, status)
  | _, _ => some (db, .invalidParameter)

/-! ## LocateHandle -/

/-- The handles `GetNextLocateByProtocol` returns one after the other on the interfaces `ps`. -/
def locateByProtocol (db : Database A) : List Addr → Database A × List Addr
  | [] => (db, [])
  | p :: ps =>
    match db.interfaces p with
    | none => db.locateByProtocol ps
    | some prot =>
      match db.handles prot.handle with
      | none => db.locateByProtocol ps
      | some handle =>
        -- a handle that was returned in this request is skipped
        if handle.locateRequest = db.efiLocateHandleRequest then db.locateByProtocol ps
        else
          let (db', hs) := (db.modifyHandle prot.handle fun handle =>
            { handle with locateRequest := db.efiLocateHandleRequest }).locateByProtocol ps
          (db', prot.handle :: hs)

/-- The one handle `GetNextLocateByRegisterNotify` returns. -/
def locateByRegisterNotify (db : Database A) (n : Addr) : List Addr :=
  match db.notifies n with
  | none => []
  | some notify =>
    match (db.entries notify.protocol).bind (fun e => flink e.protocols notify.position) with
    | none => []
    | some p => ((db.interfaces p).map (·.handle)).toList

/-- `EfiLocateHandleRequest += 1` -/
def newRequest (db : Database A) : Database A :=
  { db with efiLocateHandleRequest := db.efiLocateHandleRequest + 1 }

/-- `LocateHandle`: the search, with every handle it finds. -/
def locateSearch (db : Database A) (searchType : SearchType) (protocol : Option Guid)
    (searchKey : Option Addr) : Except Status (Database A × List Addr) :=
  match searchType, protocol, searchKey with
  | .allHandles, _, _ => .ok (db.newRequest, db.handleList)
  | .byRegisterNotify, _, some n => .ok (db.newRequest, db.locateByRegisterNotify n)
  | .byRegisterNotify, _, none => .error .invalidParameter
  | .byProtocol, some g, _ =>
    match (db.findProtocolEntry g).bind db.entries with
    | some entry => .ok (db.newRequest.locateByProtocol entry.protocols)
    | none => .error .notFound
  | .byProtocol, none, _ => .error .invalidParameter
  | .other, _, _ => .error .invalidParameter

/-- `ProtNotify->Position = ProtNotify->Position->Flink` -/
def advanceNotify (db : Database A) (n : Addr) : Database A :=
  match db.notifies n with
  | none => db
  | some notify =>
    match db.entries notify.protocol with
    | none => db
    | some entry =>
      { db with
        notifies := Function.update db.notifies n
          (some { notify with position := flink entry.protocols notify.position }) }

/-- `LocateHandle`; also `*BufferSize` afterwards and the handles written to `Buffer`. -/
def locateHandle (db : Database A) (searchType : SearchType) (protocol : Option Guid)
    (searchKey : Option Addr) (bufferSize : Nat) : Database A × Status × Nat × List Addr :=
  match db.locateSearch searchType protocol searchKey with
  | .error status => (db, status, bufferSize, [])
  | .ok (db, handles) =>
    let resultSize := handles.length * A.pointerSize
    let buffer := handles.take (bufferSize / A.pointerSize)
    let status : Status := if resultSize = 0 then .notFound
      else if bufferSize < resultSize then .bufferTooSmall
      else .success
    match searchType, searchKey, status with
    | .byRegisterNotify, some n, .success => (db.advanceNotify n, status, resultSize, buffer)
    | _, _, _ => (db, status, resultSize, buffer)

end Database

end EfiCore.Hand
