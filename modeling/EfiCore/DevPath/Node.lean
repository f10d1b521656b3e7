import EfiCore.Lib.Bytes

/-! # Device paths

`efidevp.h`.  A device path is a sequence of nodes, each with its length in its header.  An end
marker closes each of its instances; the one behind the last instance ends the entire path.
-/

namespace EfiCore.DevPath

open EfiCore.Lib

def endDevicePathType : Byte := 0x7F
def endEntireDevicePathSubtype : Byte := 0xFF
def endInstanceDevicePathSubtype : Byte := 0x01

/-- `sizeof (EFI_DEVICE_PATH)`, the header of a node -/
def sizeofDevicePath : Nat := 4

/-- `IsDevicePathEndType`; the bit that says that a path is unpacked does not count. -/
def isDevicePathEndType (type : Byte) : Bool := type &&& 0x7F = endDevicePathType

/-- A node that is no end marker. -/
structure Node where
  type : Byte
  subType : Byte
  data : List Byte
  notEnd : isDevicePathEndType type = false
  small : sizeofDevicePath + data.length < 2 ^ 16

namespace Node

def length (n : Node) : Nat := sizeofDevicePath + n.data.length

def bytes (n : Node) : List Byte := n.type :: n.subType :: leBytes 2 n.length ++ n.data

@[simp] theorem length_bytes (n : Node) : n.bytes.length = n.length := by
  simp [bytes, length, sizeofDevicePath]
  omega

theorem four_le_length (n : Node) : 4 ≤ n.length := Nat.le_add_right 4 _

theorem length_lt (n : Node) : n.length < 2 ^ 16 := n.small

end Node

/-- The bytes of nodes one after the other. -/
def nodesBytes (nodes : List Node) : List Byte := nodes.flatMap Node.bytes

@[simp] theorem nodesBytes_nil : nodesBytes [] = [] := rfl

@[simp] theorem nodesBytes_cons (n : Node) (nodes : List Node) :
    nodesBytes (n :: nodes) = n.bytes ++ nodesBytes nodes := List.flatMap_cons

@[simp] theorem nodesBytes_append (nodes nodes' : List Node) :
    nodesBytes (nodes ++ nodes') = nodesBytes nodes ++ nodesBytes nodes' := List.flatMap_append

theorem length_nodesBytes_le (nodes : List Node) :
    (nodesBytes nodes).length ≤ nodes.length * 2 ^ 16 := by
  induction nodes with
  | nil => simp
  | cons n nodes ih =>
    have hlt := n.length_lt
    simp only [nodesBytes_cons, List.length_append, Node.length_bytes, List.length_cons]
    omega

theorem length_le_nodesBytes (nodes : List Node) :
    4 * nodes.length ≤ (nodesBytes nodes).length := by
  induction nodes with
  | nil => exact Nat.le_refl 0
  | cons n nodes ih =>
    have hle := n.four_le_length
    rw [nodesBytes_cons, List.length_append, Node.length_bytes, List.length_cons]
    omega

/-- The `Type` of an end marker. -/
abbrev EndType := { type : Byte // isDevicePathEndType type = true }

def endMarker (t : EndType) (subType : Byte) : List Byte := [t.1, subType, 4, 0]

@[simp] theorem length_endMarker (t : EndType) (subType : Byte) :
    (endMarker t subType).length = sizeofDevicePath := rfl

/-- A device path that is well formed. -/
inductive Path where
  /-- The last instance, and the end of the entire path. -/
  | last (nodes : List Node) (t : EndType)
  | more (nodes : List Node) (t : EndType) (rest : Path)

namespace Path

def bytes : Path → List Byte
  | .last nodes t => nodesBytes nodes ++ endMarker t endEntireDevicePathSubtype
  | .more nodes t rest =>
    nodesBytes nodes ++ endMarker t endInstanceDevicePathSubtype ++ rest.bytes

def instances : Path → List (List Node)
  | .last nodes _ => [nodes]
  | .more nodes _ rest => nodes :: rest.instances

theorem instances_ne_nil (p : Path) : p.instances ≠ [] := by
  cases p <;> exact List.cons_ne_nil _ _

theorem length_instances_le (p : Path) : p.instances.length ≤ p.bytes.length := by
  induction p with
  | last nodes t =>
    rw [instances, bytes, List.length_singleton, List.length_append, length_endMarker,
      sizeofDevicePath]
    omega
  | more nodes t p ih =>
    rw [instances, bytes, List.length_cons, List.length_append, List.length_append,
      length_endMarker, sizeofDevicePath]
    omega

end Path

/-! ## A path to a controller -/

theorem controller_small : sizeofDevicePath + ([0, 0, 0, 0] : List Byte).length < 2 ^ 16 := by
  decide

/-- The node of a controller: a hardware path with the number of the controller. -/
def controllerNode : Node := ⟨1, 5, [0, 0, 0, 0], rfl, controller_small⟩

def endType : EndType := ⟨endDevicePathType, rfl⟩

end EfiCore.DevPath
