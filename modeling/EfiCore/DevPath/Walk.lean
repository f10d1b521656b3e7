import EfiCore.DevPath.Node

/-! # Walking over device paths

`DevicePathInstance`, `DevicePathInstanceCount` and `DevicePathSize` of `dpath.c`, on a path that
lies in a buffer; a pointer is an offset in the buffer.  `DevicePathInstance` gives up on an
instance of too many nodes and then returns the part that it has passed.
-/

namespace EfiCore.DevPath

open EfiCore.Lib

inductive Fault where
  /-- An access outside a buffer. -/
  | outOfBounds
  /-- A loop that does not end. -/
  | hang
  deriving DecidableEq, Repr

def readByte (mem : List Byte) (off : Nat) : Except Fault Byte :=
  match mem[off]? with
  | some b => .ok b
  | none => .error .outOfBounds

def readBuffer (mem : List Byte) (off n : Nat) : Except Fault (List Byte) :=
  if off + n ≤ mem.length then .ok (slice mem off n) else .error .outOfBounds

def devicePathNodeLength (mem : List Byte) (devPath : Nat) : Except Fault Nat := do
  let low ← readByte mem (devPath + 2)
  let high ← readByte mem (devPath + 3)
  return leNat [low, high]

def nextDevicePathNode (mem : List Byte) (devPath : Nat) : Except Fault Nat :=
  return devPath + (← devicePathNodeLength mem devPath)

/-- `01000`: on a `Count` above this `DevicePathInstance` gives up. -/
def countLimit : Nat := 512

/-- The loop of `DevicePathInstance`, with how often it may still go on: `DevPath` and `Next` at
    its end. -/
def findInstanceEnd (mem : List Byte) : Nat → Nat → Except Fault (Nat × Nat)
  | left, devPath => do
    let next ← nextDevicePathNode mem devPath
    if isDevicePathEndType (← readByte mem devPath) then return (devPath, next)
    match left with
    | 0 => return (devPath, next)
    | left + 1 => findInstanceEnd mem left next

/-- `DevicePathInstance`: the start and the size of the instance, and `*DevicePath`. -/
def devicePathInstance (mem : List Byte) (devicePath : Option Nat) :
    Except Fault (Option (Nat × Nat) × Option Nat) :=
  match devicePath with
  | none => .ok (none, none)
  | some start => do
    let (devPath, next) ← findInstanceEnd mem (countLimit + 1) start
    let subType ← readByte mem (devPath + 1)
    let next := if subType = endEntireDevicePathSubtype then none else some next
    return (some (start, devPath - start), next)

/-- `DevicePathInstanceCount` -/
def devicePathInstanceCount (mem : List Byte) : Nat → Option Nat → Except Fault Nat
  | 0, _ => .error .hang
  | fuel + 1, devicePath => do
    let (inst, devicePath) ← devicePathInstance mem devicePath
    match inst with
    | none => return 0
    | some _ => return (← devicePathInstanceCount mem fuel devicePath) + 1

/-- The loop of `DevicePathSize`: where the entire path ends. -/
def findEnd (mem : List Byte) : Nat → Nat → Except Fault Nat
  | 0, _ => .error .hang
  | fuel + 1, devPath => do
    let type ← readByte mem devPath
    let subType ← readByte mem (devPath + 1)
    if isDevicePathEndType type && decide (subType = endEntireDevicePathSubtype) then
      return devPath
    findEnd mem fuel (← nextDevicePathNode mem devPath)

def devicePathSize (mem : List Byte) (devPath : Nat) : Except Fault Nat :=
  return (← findEnd mem (mem.length + 1) devPath) - devPath + sizeofDevicePath

/-! ## What lies at a place -/

variable {mem bs rest : List Byte} {off : Nat}

theorem drop_of_drop (h : mem.drop off = bs ++ rest) : mem.drop (off + bs.length) = rest := by
  rw [← List.drop_drop, h, List.drop_left]

theorem readByte_of_drop (h : mem.drop off = bs ++ rest) {i : Nat} {b : Byte}
    (hb : bs[i]? = some b) : readByte mem (off + i) = .ok b := by
  have hi : i < bs.length := (List.getElem?_eq_some_iff.mp hb).1
  rw [readByte, ← List.getElem?_drop, h, List.getElem?_append_left hi, hb]

theorem readBuffer_of_drop (h : mem.drop off = bs ++ rest) (hoff : off ≤ mem.length) :
    readBuffer mem off bs.length = .ok bs := by
  have hlength := congrArg List.length h
  rw [List.length_drop, List.length_append] at hlength
  rw [readBuffer, if_pos (by omega), slice, h, List.take_left]

theorem devicePathNodeLength_of_drop (h : mem.drop off = bs ++ rest) {n : Nat} {low high : Byte}
    (hlow : bs[2]? = some low) (hhigh : bs[3]? = some high) (hn : leNat [low, high] = n) :
    nextDevicePathNode mem off = .ok (off + n) := by
  rw [nextDevicePathNode, devicePathNodeLength, readByte_of_drop h hlow, readByte_of_drop h hhigh,
    ← hn]
  rfl

theorem Node.header (n : Node) : n.bytes[0]? = some n.type ∧ n.bytes[1]? = some n.subType ∧
    n.bytes[2]? = some (BitVec.ofNat 8 n.length) ∧
    n.bytes[3]? = some (BitVec.ofNat 8 (n.length / 256)) := ⟨rfl, rfl, rfl, rfl⟩

/-- The header of the node that lies at `off`. -/
theorem Node.walk {n : Node} (h : mem.drop off = n.bytes ++ rest) :
    nextDevicePathNode mem off = .ok (off + n.length) ∧ readByte mem off = .ok n.type ∧
      readByte mem (off + 1) = .ok n.subType := by
  obtain ⟨htype, hsubType, hlow, hhigh⟩ := n.header
  refine ⟨devicePathNodeLength_of_drop h hlow hhigh ?_, readByte_of_drop h htype,
    readByte_of_drop h hsubType⟩
  have hle := leNat_leBytes 2 n.length
  rw [Nat.mod_eq_of_lt (show n.length < 256 ^ 2 from n.length_lt)] at hle
  exact hle

/-- The end marker that lies at `off`. -/
theorem endMarker_walk {t : EndType} {subType : Byte}
    (h : mem.drop off = endMarker t subType ++ rest) :
    nextDevicePathNode mem off = .ok (off + sizeofDevicePath) ∧ readByte mem off = .ok t.1 ∧
      readByte mem (off + 1) = .ok subType :=
  ⟨devicePathNodeLength_of_drop h rfl rfl rfl, readByte_of_drop h (i := 0) rfl,
    readByte_of_drop h (i := 1) rfl⟩

/-- The nodes of an instance lie at `off`, and then its end marker. -/
structure Holds (mem : List Byte) (off : Nat) (nodes : List Node) (t : EndType) (subType : Byte)
    (rest : List Byte) : Prop where
  drop : mem.drop off = nodesBytes nodes ++ (endMarker t subType ++ rest)

namespace Holds

variable {n : Node} {nodes : List Node} {t : EndType} {subType : Byte}

theorem tail (h : Holds mem off (n :: nodes) t subType rest) :
    Holds mem (off + n.length) nodes t subType rest := by
  have hdrop := h.drop
  rw [nodesBytes_cons, List.append_assoc] at hdrop
  have htail := drop_of_drop hdrop
  rw [Node.length_bytes] at htail
  exact ⟨htail⟩

theorem head (h : Holds mem off (n :: nodes) t subType rest) :
    nextDevicePathNode mem off = .ok (off + n.length) ∧ readByte mem off = .ok n.type ∧
      readByte mem (off + 1) = .ok n.subType := by
  have hdrop := h.drop
  rw [nodesBytes_cons, List.append_assoc] at hdrop
  exact Node.walk hdrop

/-- The end marker, and what is behind it. -/
theorem endWalk (h : Holds mem off nodes t subType rest) :
    mem.drop (off + (nodesBytes nodes).length) = endMarker t subType ++ rest :=
  drop_of_drop h.drop

theorem after (h : Holds mem off nodes t subType rest) :
    mem.drop (off + (nodesBytes nodes).length + sizeofDevicePath) = rest :=
  drop_of_drop h.endWalk

theorem off_le (h : Holds mem off nodes t subType rest) :
    off + (nodesBytes nodes).length + sizeofDevicePath ≤ mem.length := by
  have hlength := congrArg List.length h.drop
  rw [List.length_drop, List.length_append, List.length_append, length_endMarker,
    sizeofDevicePath] at hlength
  rw [sizeofDevicePath]
  omega

/-- The length of the buffer is fuel enough for the walk over one instance. -/
theorem two_le (h : Holds mem off nodes t subType rest) : 2 ≤ mem.length + 1 := by
  have hle := h.off_le
  rw [sizeofDevicePath] at hle
  omega

end Holds

/-! ## What the walks find -/

/-- The walk over an instance passes as many of its nodes as the limit allows. -/
theorem findInstanceEnd_spec {nodes : List Node} {t : EndType} {subType : Byte}
    (h : Holds mem off nodes t subType rest) (left : Nat) :
    ∃ next, findInstanceEnd mem left off =
        .ok (off + (nodesBytes (nodes.take left)).length, next) ∧
      (nodes.length ≤ left → next = off + (nodesBytes nodes).length + sizeofDevicePath) := by
  induction nodes generalizing off left with
  | nil =>
    obtain ⟨hnext, htype, -⟩ := endMarker_walk h.drop
    refine ⟨off + sizeofDevicePath, ?_, fun _ => rfl⟩
    rw [findInstanceEnd, hnext, htype]
    simp only [bind, Except.bind, t.2, if_pos, List.take_nil, nodesBytes_nil, List.length_nil]
    rfl
  | cons n nodes ih =>
    obtain ⟨hnext, htype, -⟩ := h.head
    rw [findInstanceEnd, hnext, htype]
    simp only [bind, Except.bind, n.notEnd]
    cases left with
    | zero =>
      refine ⟨off + n.length, rfl, fun hle => ?_⟩
      exact absurd hle (Nat.not_succ_le_zero _)
    | succ left =>
      obtain ⟨next, hwalk, hend⟩ := ih h.tail left
      refine ⟨next, ?_, fun hle => ?_⟩
      · rw [if_neg Bool.false_ne_true]
        dsimp only
        rw [hwalk, List.take_succ_cons, nodesBytes_cons,
          List.length_append, Node.length_bytes, Nat.add_assoc]
      · rw [hend (Nat.le_of_succ_le_succ hle), nodesBytes_cons, List.length_append,
          Node.length_bytes, Nat.add_assoc off]

/-- An instance of too many nodes is cut off. -/
theorem devicePathInstance_spec {nodes : List Node} {t : EndType} {subType : Byte}
    (h : Holds mem off nodes t subType rest) :
    (∃ next sub, findInstanceEnd mem (countLimit + 1) off =
        .ok (off + (nodesBytes (nodes.take (countLimit + 1))).length, next) ∧
      readByte mem (off + (nodesBytes (nodes.take (countLimit + 1))).length + 1) = .ok sub ∧
      devicePathInstance mem (some off) =
        .ok (some (off, (nodesBytes (nodes.take (countLimit + 1))).length),
          if sub = endEntireDevicePathSubtype then none else some next) ∧
      (nodes.length ≤ countLimit + 1 →
        sub = subType ∧ next = off + (nodesBytes nodes).length + sizeofDevicePath)) := by
  obtain ⟨next, hwalk, hend⟩ := findInstanceEnd_spec h (countLimit + 1)
  have hsub : ∃ sub, readByte mem
      (off + (nodesBytes (nodes.take (countLimit + 1))).length + 1) = .ok sub ∧
      (nodes.length ≤ countLimit + 1 → sub = subType) := by
    by_cases hle : nodes.length ≤ countLimit + 1
    · obtain ⟨-, -, hread⟩ := endMarker_walk h.endWalk
      refine ⟨subType, ?_, fun _ => rfl⟩
      rw [List.take_of_length_le hle]
      exact hread
    · -- the walk has come to a node
      have hsplit : nodes = nodes.take (countLimit + 1) ++ nodes.drop (countLimit + 1) :=
        (List.take_append_drop _ nodes).symm
      cases hdrop : nodes.drop (countLimit + 1) with
      | nil => exact absurd (List.drop_eq_nil_iff.mp hdrop) hle
      | cons n rest' =>
        have hmem := h.drop
        rw [hsplit, hdrop, nodesBytes_append, nodesBytes_cons, List.append_assoc,
          List.append_assoc] at hmem
        obtain ⟨-, -, hread⟩ := Node.walk (drop_of_drop hmem)
        exact ⟨n.subType, hread, fun hle' => absurd hle' hle⟩
  obtain ⟨sub, hread, heq⟩ := hsub
  refine ⟨next, sub, hwalk, hread, ?_, fun hle => ⟨heq hle, hend hle⟩⟩
  rw [devicePathInstance, hwalk]
  simp only [bind, Except.bind, hread, Nat.add_sub_cancel_left]
  rfl

/-! ## Paths of one instance -/

variable {nodes : List Node} {t : EndType}

/-- The walk to the end of a path of one instance. -/
theorem findEnd_spec {off : Nat} (h : Holds mem off nodes t endEntireDevicePathSubtype rest)
    {fuel : Nat} (hfuel : nodes.length < fuel) :
    findEnd mem fuel off = .ok (off + (nodesBytes nodes).length) := by
  induction nodes generalizing off fuel with
  | nil =>
    obtain ⟨-, htype, hsubType⟩ := endMarker_walk h.drop
    cases fuel with
    | zero => exact absurd hfuel (Nat.not_lt_zero _)
    | succ fuel =>
      rw [findEnd, htype, hsubType]
      simp only [bind, Except.bind, t.2, decide_true, Bool.and_self, if_pos, nodesBytes_nil,
        List.length_nil, Nat.add_zero]
      rfl
  | cons n nodes ih =>
    obtain ⟨hnext, htype, hsubType⟩ := h.head
    cases fuel with
    | zero => exact absurd hfuel (Nat.not_lt_zero _)
    | succ fuel =>
      rw [findEnd, htype, hsubType]
      simp only [bind, Except.bind, n.notEnd, Bool.false_and, hnext]
      rw [if_neg Bool.false_ne_true, ih h.tail (Nat.lt_of_succ_lt_succ hfuel), nodesBytes_cons,
        List.length_append, Node.length_bytes, Nat.add_assoc]

theorem devicePathSize_spec (h : Holds mem 0 nodes t endEntireDevicePathSubtype rest) :
    devicePathSize mem 0 = .ok ((nodesBytes nodes).length + sizeofDevicePath) := by
  have hfuel : nodes.length < mem.length + 1 := by
    have hle := h.off_le
    have hnodes := length_le_nodesBytes nodes
    omega
  rw [devicePathSize, findEnd_spec h hfuel, Nat.zero_add]
  rfl

/-- One instance, and it is not cut off. -/
theorem devicePathInstance_last (h : Holds mem off nodes t endEntireDevicePathSubtype rest)
    (hcount : nodes.length ≤ countLimit + 1) :
    devicePathInstance mem (some off) = .ok (some (off, (nodesBytes nodes).length), none) := by
  obtain ⟨next, sub, -, -, hinst, hend⟩ := devicePathInstance_spec h
  rw [hinst, List.take_of_length_le hcount, (hend hcount).1, if_pos rfl]

theorem readBuffer_nodes {k : Nat} (h : Holds mem 0 nodes t endEntireDevicePathSubtype rest) :
    readBuffer mem 0 (nodesBytes (nodes.take k)).length = .ok (nodesBytes (nodes.take k)) := by
  have hdrop := h.drop
  rw [← List.take_append_drop k nodes, nodesBytes_append, List.append_assoc] at hdrop
  exact readBuffer_of_drop hdrop (Nat.zero_le _)

theorem devicePathInstanceCount_last {fuel : Nat}
    (h : Holds mem off nodes t endEntireDevicePathSubtype rest)
    (hcount : nodes.length ≤ countLimit + 1) (hfuel : 2 ≤ fuel) :
    devicePathInstanceCount mem fuel (some off) = .ok 1 := by
  obtain ⟨k, rfl⟩ : ∃ k, fuel = k + 2 := ⟨fuel - 2, by omega⟩
  rw [devicePathInstanceCount, devicePathInstance_last h hcount]
  rfl

/-! ## Instances that are cut off -/

/-- What is behind the first nodes. -/
theorem Holds.skip {front : List Node} {subType : Byte}
    (h : Holds mem off (front ++ nodes) t subType rest) :
    Holds mem (off + (nodesBytes front).length) nodes t subType rest := by
  have hdrop := h.drop
  rw [nodesBytes_append, List.append_assoc] at hdrop
  exact ⟨drop_of_drop hdrop⟩

theorem findInstanceEnd_cut {front : List Node} {n : Node} {subType : Byte}
    (h : Holds mem off (front ++ n :: nodes) t subType rest) :
    findInstanceEnd mem front.length off =
      .ok (off + (nodesBytes front).length, off + (nodesBytes front).length + n.length) := by
  induction front generalizing off with
  | nil =>
    obtain ⟨hnext, htype, -⟩ := h.head
    rw [List.length_nil, findInstanceEnd, hnext, htype]
    simp only [bind, Except.bind, n.notEnd]
    rfl
  | cons m front ih =>
    obtain ⟨hnext, htype, -⟩ := h.head
    rw [List.length_cons, findInstanceEnd, hnext, htype]
    simp only [bind, Except.bind, m.notEnd]
    rw [if_neg Bool.false_ne_true, ih h.tail, nodesBytes_cons, List.length_append,
      Node.length_bytes, Nat.add_assoc]

/-- The node at which the walk gives up is passed over, and what is behind it is the next
    instance. -/
theorem devicePathInstance_cut {front : List Node} {n : Node} {subType : Byte}
    (h : Holds mem off (front ++ n :: nodes) t subType rest)
    (hfront : front.length = countLimit + 1) (hn : n.subType ≠ endEntireDevicePathSubtype) :
    devicePathInstance mem (some off) = .ok (some (off, (nodesBytes front).length),
      some (off + (nodesBytes front).length + n.length)) := by
  obtain ⟨-, -, hread⟩ := h.skip.head
  rw [devicePathInstance, ← hfront, findInstanceEnd_cut h]
  simp only [bind, Except.bind, hread, if_neg hn, Nat.add_sub_cancel_left]
  rfl

theorem devicePathInstanceCount_cut {front : List Node} {n : Node} {fuel : Nat}
    (h : Holds mem off (front ++ n :: nodes) t endEntireDevicePathSubtype rest)
    (hfront : front.length = countLimit + 1) (hn : n.subType ≠ endEntireDevicePathSubtype)
    (hcount : nodes.length ≤ countLimit + 1) (hfuel : 3 ≤ fuel) :
    devicePathInstanceCount mem fuel (some off) = .ok 2 := by
  obtain ⟨k, rfl⟩ : ∃ k, fuel = k + 1 := ⟨fuel - 1, by omega⟩
  rw [devicePathInstanceCount, devicePathInstance_cut h hfront hn]
  simp only [bind, Except.bind,
    devicePathInstanceCount_last h.skip.tail hcount (Nat.le_of_succ_le_succ hfuel)]
  rfl

/-! ## The first instance -/

theorem Path.holds (p : Path) (rest : List Byte) : ∃ nodes t subType behind,
    Holds (p.bytes ++ rest) 0 nodes t subType behind ∧ p.instances.head? = some nodes := by
  cases p with
  | last nodes t =>
    refine ⟨nodes, t, endEntireDevicePathSubtype, rest, ⟨?_⟩, rfl⟩
    rw [List.drop_zero, Path.bytes, List.append_assoc]
  | more nodes t p =>
    refine ⟨nodes, t, endInstanceDevicePathSubtype, p.bytes ++ rest, ⟨?_⟩, rfl⟩
    rw [List.drop_zero, Path.bytes, List.append_assoc, List.append_assoc]

theorem Path.last_holds (nodes : List Node) (t : EndType) (rest : List Byte) :
    Holds ((Path.last nodes t).bytes ++ rest) 0 nodes t endEntireDevicePathSubtype rest := by
  constructor
  rw [List.drop_zero, Path.bytes, List.append_assoc]

end EfiCore.DevPath
