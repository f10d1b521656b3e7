import EfiCore.Hand.Database

/-! # Opening and closing protocols

`OpenProtocol` up to the point where it returns or goes on to disconnect drivers, what it does
after that, and `CloseProtocol`.  Its disconnect loop releases the lock and runs drivers; it is
part of the machine in `EfiCore.Hand.Exclusive`.

`memory` says whether the one allocation of a function succeeds.
-/

namespace EfiCore.Hand

/-- The arguments of `OpenProtocol`. -/
structure OpenArgs where
  userHandle : Addr
  protocol : Option Guid
  /-- `Interface != NULL` -/
  interface : Bool
  imageHandle : Addr
  controllerHandle : Addr
  attributes : BitVec 32
  deriving DecidableEq, Repr

/-! ## The search for an entry of the same agent -/

/-- `ExactMatch` -/
def OpenData.exactMatch (o : OpenData) (a : OpenArgs) : Bool :=
  o.agentHandle = a.imageHandle ∧ o.attributes = a.attributes ∧
    o.controllerHandle = a.controllerHandle

/-- How the walk over the open list ends. -/
inductive Scan where
  | alreadyStarted
  /-- An entry was counted up; the list with the entry rewritten. -/
  | reopened (openList : List OpenData)
  | free (byDriver exclusive : Bool)
  deriving DecidableEq, Repr

def Scan.cons (o : OpenData) : Scan → Scan
  | .reopened os => .reopened (o :: os)
  | r => r

/-- The loop of `OpenProtocol` over the open list. -/
def scanOpenList (a : OpenArgs) (byDriver exclusive : Bool) : List OpenData → Scan
  | [] => .free byDriver exclusive
  | o :: os =>
    if o.byDriver && o.exactMatch a then .alreadyStarted
    else if o.exclusive then (scanOpenList a (byDriver || o.byDriver) true os).cons o
    else if o.exactMatch a then .reopened ({ o with openCount := o.openCount + 1 } :: os)
    else (scanOpenList a (byDriver || o.byDriver) exclusive os).cons o

/-! ## The decision -/

inductive OpenNext where
  | return (status : Status)
  | disconnect
  | append
  deriving DecidableEq, Repr

def openDecide (attributes : BitVec 32) (byDriver exclusive : Bool) : OpenNext :=
  if attributes = openByDriver then
    if exclusive || byDriver then .return .accessDenied else .append
  else if attributes = openByDriver ||| openExclusive ∨ attributes = openExclusive then
    if exclusive then .return .accessDenied
    else if byDriver then .disconnect
    else .append
  else .append

namespace Database

variable {A : Arch}

/-- The `switch` on `Attributes` that validates the other handles. -/
def checkAttributes (db : Database A) (a : OpenArgs) : Status :=
  if a.attributes = openByChildController then
    (db.validateHandle a.imageHandle).andThen <|
      (db.validateHandle a.controllerHandle).andThen <|
        if a.userHandle = a.controllerHandle then .invalidParameter else .success
  else if a.attributes = openByDriver ∨ a.attributes = openByDriver ||| openExclusive then
    (db.validateHandle a.imageHandle).andThen (db.validateHandle a.controllerHandle)
  else if a.attributes = openExclusive then db.validateHandle a.imageHandle
  else if a.attributes = openByHandleProtocol ∨ a.attributes = openGetProtocol ∨
      a.attributes = openTestProtocol then .success
  else .invalidParameter

/-- `OpenProtocol`, before it takes the lock. -/
def openCheck (db : Database A) (a : OpenArgs) : Except Status Guid :=
  match a.protocol with
  | none => .error .invalidParameter
  | some g =>
    if a.attributes ≠ openTestProtocol ∧ a.interface = false then .error .invalidParameter
    else
      match (db.validateHandle a.userHandle).andThen (db.checkAttributes a) with
      | .success => .ok g
      | status => .error status

/-- `OpenProtocol`, the new entry. -/
def appendOpen (db : Database A) (p : Addr) (a : OpenArgs) (memory : Bool) :
    Database A × Status :=
  if a.imageHandle = 0 then (db, .success)
  else if memory then
    (db.modifyInterface p fun prot =>
      { prot with
        openList := prot.openList ++ [⟨a.imageHandle, a.controllerHandle, a.attributes, 1⟩]
        openListCount := prot.openListCount + 1 }, .success)
  else (db, .outOfResources)

/-- Where `OpenProtocol` is when it first gives up the lock. -/
inductive OpenOutcome (A : Arch) where
  | returned (db : Database A) (status : Status) (interface : Option Nat)
  /-- It goes on to disconnect the drivers of the interface `p`. -/
  | disconnects (p : Addr) (interface : Option Nat)

/-- `OpenProtocol` up to its return or its disconnect loop. -/
def openProtocol (db : Database A) (a : OpenArgs) (memory : Bool) : OpenOutcome A :=
  match db.openCheck a with
  | .error status => .returned db status none
  | .ok g =>
    match db.getProtocolEntry a.userHandle g with
    | none => .returned db .unsupported none
    | some p =>
      match db.interfaces p with
      | none => .returned db .unsupported none
      | some prot =>
        let interface := if a.attributes = openTestProtocol then none else some prot.interface
        match scanOpenList a false false prot.openList with
        | .alreadyStarted => .returned db .alreadyStarted interface
        | .reopened openList =>
          .returned (db.modifyInterface p fun prot => { prot with openList }) .success interface
        | .free byDriver exclusive =>
          match openDecide a.attributes byDriver exclusive with
          | .return status => .returned db status interface
          | .disconnect => .disconnects p interface
          | .append =>
            let (db, status) := db.appendOpen p a memory
            .returned db status interface

/-- `HandleProtocol`: it opens for no image and no controller, so nothing is allocated and no
    driver is disconnected. -/
def handleProtocol (db : Database A) (h : Addr) (g : Option Guid) (interface : Bool) :
    Database A × Status × Option Nat :=
  match db.openProtocol ⟨h, g, interface, 0, 0, openByHandleProtocol⟩ false with
  | .returned db status i => (db, status, i)
  | .disconnects _ i => (db, .success, i)

/-- `CloseProtocol`: every entry of the agent and controller goes. -/
def closeProtocol (db : Database A) (h : Addr) (g : Option Guid) (image controller : Addr) :
    Database A × Status :=
  let status := (db.validateHandle h).andThen <| (db.validateHandle image).andThen <|
    if controller = 0 then .success else db.validateHandle controller
  match status, g with
  | .success, some g =>
    match db.getProtocolEntry h g with
    | some p =>
      match db.interfaces p with
      | some prot =>
        let keep := prot.openList.filter fun o =>
          ¬ (o.agentHandle = image ∧ o.controllerHandle = controller)
        let removed := prot.openList.length - keep.length
        (db.modifyInterface p fun prot =>
          { prot with
            openList := keep
            openListCount := prot.openListCount - BitVec.ofNat _ removed },
          if removed = 0 then .notFound else .success)
      | none => (db, .notFound)
    | none => (db, .notFound)
  | .success, none => (db, .invalidParameter)
  | status, _ => (db, status)

/-- `OpenProtocolInformation` -/
def openProtocolInformation (db : Database A) (h : Addr) (g : Guid) (memory : Bool) :
    Except Status (List OpenData) :=
  match (db.getProtocolEntry h g).bind db.interfaces with
  | none => .error .notFound
  | some prot => if memory then .ok prot.openList else .error .outOfResources

/-- `ProtocolsPerHandle` -/
def protocolsPerHandle (db : Database A) (h : Addr) (buffer count memory : Bool) :
    Except Status (List Guid) :=
  match db.handles h with
  | none => .error .invalidParameter
  | some handle =>
    if h = 0 ∨ buffer = false ∨ count = false ∨ handle.protocols = [] then
      .error .invalidParameter
    else if memory then
      .ok (handle.protocols.filterMap fun p =>
        (db.interfaces p).bind fun prot => (db.entries prot.protocol).map (·.protocolID))
    else .error .outOfResources

end Database

end EfiCore.Hand
