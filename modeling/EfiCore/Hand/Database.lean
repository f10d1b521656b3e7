import EfiCore.Types
import Mathlib.Logic.Function.Basic

/-! # The handle database

The records of `hand.h` and the functions that search and edit them under
`ProtocolDatabaseLock`.  A record is named by the address of its block; the tables hold the
blocks whose signature is in place, so `ValidateHandle` is a lookup.  Doubly linked lists are
lists of addresses, head first.

The `Position` of a `PROTOCOL_NOTIFY` is a link of the list it walks: `none` stands for the
list head.  Events given to `SignalEvent` are collected in `signalled`.
-/

namespace EfiCore.Hand

/-! ## Open attributes -/

def openByHandleProtocol : BitVec 32 := 0x01
def openGetProtocol : BitVec 32 := 0x02
def openTestProtocol : BitVec 32 := 0x04
def openByChildController : BitVec 32 := 0x08
def openByDriver : BitVec 32 := 0x10
def openExclusive : BitVec 32 := 0x20

/-! ## Records -/

/-- `OPEN_PROTOCOL_DATA` -/
structure OpenData where
  agentHandle : Addr
  controllerHandle : Addr
  attributes : BitVec 32
  openCount : BitVec 32
  deriving DecidableEq, Repr

/-- `Attributes & EFI_OPEN_PROTOCOL_BY_DRIVER` -/
def OpenData.byDriver (o : OpenData) : Bool := o.attributes &&& openByDriver != 0

/-- `Attributes & EFI_OPEN_PROTOCOL_EXCLUSIVE` -/
def OpenData.exclusive (o : OpenData) : Bool := o.attributes &&& openExclusive != 0

/-- `Attributes & EFI_OPEN_PROTOCOL_BY_CHILD_CONTROLLER` -/
def OpenData.byChild (o : OpenData) : Bool := o.attributes &&& openByChildController != 0

/-- The uses of an interface that nothing has to be stopped for. -/
def OpenData.passive (o : OpenData) : Bool :=
  o.attributes &&& (openByHandleProtocol ||| openGetProtocol ||| openTestProtocol) != 0

/-- `PROTOCOL_INTERFACE` -/
structure ProtocolInterface (A : Arch) where
  handle : Addr
  protocol : Addr
  interface : Nat
  openList : List OpenData
  openListCount : Uintn A
  deriving DecidableEq, Repr

/-- `PROTOCOL_ENTRY` -/
structure ProtocolEntry where
  protocolID : Guid
  protocols : List Addr
  notify : List Addr
  deriving DecidableEq, Repr

/-- `PROTOCOL_NOTIFY` -/
structure ProtocolNotify where
  protocol : Addr
  event : Nat
  position : Option Addr
  deriving DecidableEq, Repr

structure IHandle (A : Arch) where
  protocols : List Addr
  locateRequest : Uintn A
  key : BitVec 64
  deriving DecidableEq, Repr

structure Database (A : Arch) where
  handles : Addr → Option (IHandle A)
  entries : Addr → Option ProtocolEntry
  interfaces : Addr → Option (ProtocolInterface A)
  notifies : Addr → Option ProtocolNotify
  handleList : List Addr
  protocolDatabase : List Addr
  handleDatabaseKey : BitVec 64
  efiLocateHandleRequest : Uintn A
  signalled : List Nat

namespace Database

variable {A : Arch}

/-- The globals after `InitializeHandle`. -/
def initializeHandle (A : Arch) : Database A where
  handles := fun _ => none
  entries := fun _ => none
  interfaces := fun _ => none
  notifies := fun _ => none
  handleList := []
  protocolDatabase := []
  handleDatabaseKey := 0
  efiLocateHandleRequest := 0
  signalled := []

/-- An address `AllocatePool` may return: no record lives there. -/
structure Fresh (db : Database A) (a : Addr) : Prop where
  ne_null : a ≠ 0
  handles : db.handles a = none
  entries : db.entries a = none
  interfaces : db.interfaces a = none
  notifies : db.notifies a = none

/-! ## Writing through a pointer -/

def modifyHandle (db : Database A) (h : Addr) (f : IHandle A → IHandle A) : Database A :=
  { db with handles := Function.update db.handles h ((db.handles h).map f) }

def modifyEntry (db : Database A) (e : Addr) (f : ProtocolEntry → ProtocolEntry) : Database A :=
  { db with entries := Function.update db.entries e ((db.entries e).map f) }

def modifyInterface (db : Database A) (p : Addr)
    (f : ProtocolInterface A → ProtocolInterface A) : Database A :=
  { db with interfaces := Function.update db.interfaces p ((db.interfaces p).map f) }

/-! ## Searching -/

def validateHandle (db : Database A) (h : Addr) : Status :=
  if h = 0 then .invalidParameter
  else if (db.handles h).isNone then .invalidParameter
  else .success

/-- `FindProtocolEntry (Protocol, FALSE)` -/
def findProtocolEntry (db : Database A) (g : Guid) : Option Addr :=
  db.protocolDatabase.find? fun e => (db.entries e).any fun item => item.protocolID = g

/-- The entry that `FindProtocolEntry (Protocol, TRUE)` adds, allocated at `e`. -/
def createProtocolEntry (db : Database A) (g : Guid) (e : Addr) : Database A :=
  { db with
    entries := Function.update db.entries e (some ⟨g, [], []⟩)
    protocolDatabase := db.protocolDatabase ++ [e] }

def findProtocolInterface (db : Database A) (h : Addr) (g : Guid) (interface : Nat) :
    Option Addr :=
  match db.findProtocolEntry g, db.handles h with
  | some e, some handle =>
    handle.protocols.find? fun p =>
      (db.interfaces p).any fun prot => prot.interface = interface ∧ prot.protocol = e
  | _, _ => none

/-- `GetProtocolEntry`: the interface of the protocol on the handle. -/
def getProtocolEntry (db : Database A) (h : Addr) (g : Guid) : Option Addr :=
  match db.handles h with
  | some handle =>
    handle.protocols.find? fun p =>
      (db.interfaces p).any fun prot => (db.entries prot.protocol).any (·.protocolID = g)
  | none => none

/-! ## Editing -/

/-- `NotifyProtocolEntry` -/
def notifyProtocolEntry (db : Database A) (e : Addr) : Database A :=
  match db.entries e with
  | some entry =>
    { db with signalled := db.signalled ++ (entry.notify.filterMap db.notifies).map (·.event) }
  | none => db

/-- `Link->Blink` of `p` on the list `l`. -/
def blink (l : List Addr) (p : Addr) : Option Addr := (l.takeWhile (· ≠ p)).getLast?

/-- A notify location pointing to `p` is backed up one. -/
def backUp (l : List Addr) (p : Addr) (n : ProtocolNotify) : ProtocolNotify :=
  if n.position = some p then { n with position := blink l p } else n

/-- `RemoveInterfaceFromProtocol`, once the interface `p` and its entry `e` are found. -/
def removeByProtocol (db : Database A) (e p : Addr) : Database A :=
  match db.entries e with
  | some entry =>
    { db with
      notifies := fun n => if n ∈ entry.notify then (db.notifies n).map (backUp entry.protocols p)
        else db.notifies n
      entries := Function.update db.entries e
        (some { entry with protocols := entry.protocols.erase p }) }
  | none => db

def removeInterfaceFromProtocol (db : Database A) (h : Addr) (g : Guid) (interface : Nat) :
    Database A × Option Addr :=
  match db.findProtocolInterface h g interface with
  | some p =>
    match db.interfaces p with
    | some prot => (db.removeByProtocol prot.protocol p, some p)
    | none => (db, some p)
  | none => (db, none)

/-- `HandleDatabaseKey++; Handle->Key = HandleDatabaseKey` -/
def touchHandle (db : Database A) (h : Addr) : Database A :=
  { db with handleDatabaseKey := db.handleDatabaseKey + 1 }.modifyHandle h
    fun handle => { handle with key := db.handleDatabaseKey + 1 }

/-- The handle that `InstallProtocolInterface` allocates at `h`. -/
def newHandle (db : Database A) (h : Addr) : Database A :=
  { db with
    handleDatabaseKey := db.handleDatabaseKey + 1
    handles := Function.update db.handles h (some ⟨[], 0, db.handleDatabaseKey + 1⟩)
    handleList := db.handleList ++ [h] }

/-- `InstallProtocolInterface`: the interface allocated at `p` goes to the head of the handle's
    list and to the tail of the entry's. -/
def linkInterface (db : Database A) (p h e : Addr) (interface : Nat) : Database A :=
  let db := { db with
    interfaces := Function.update db.interfaces p (some ⟨h, e, interface, [], 0⟩) }
  let db := db.modifyHandle h fun handle => { handle with protocols := p :: handle.protocols }
  db.modifyEntry e fun entry => { entry with protocols := entry.protocols ++ [p] }

/-- `UninstallProtocolInterface`: the interface leaves the handle's list and is freed. -/
def freeInterface (db : Database A) (h p : Addr) : Database A :=
  { db with interfaces := Function.update db.interfaces p none }.modifyHandle h
    fun handle => { handle with protocols := handle.protocols.erase p }

/-- `UninstallProtocolInterface`: a handle without interfaces is freed. -/
def freeHandleIfEmpty (db : Database A) (h : Addr) : Database A :=
  match db.handles h with
  | some handle =>
    if handle.protocols = [] then
      { db with
        handles := Function.update db.handles h none
        handleList := db.handleList.erase h }
    else db
  | none => db

end Database

end EfiCore.Hand
