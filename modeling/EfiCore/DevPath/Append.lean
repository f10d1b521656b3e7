import EfiCore.Types
import EfiCore.Lib.Ensures
import EfiCore.DevPath.Walk

/-! # Appending device paths

`DuplicateDevicePath` and `AppendDevicePath` of `dpath.c`.  Behind every instance of the first
path the loop copies all of the second one, with the marker that ends the entire path.  Only a
first path of a single instance is so appended to.
-/

namespace EfiCore.DevPath

open EfiCore.Lib

/-- `AllocatePool`: a buffer of the size that is asked for, with whatever it holds. -/
abbrev Pool := (size : Nat) → Option { buffer : List Byte // buffer.length = size }

/-- `CopyMem` -/
def copyMem (dst : List Byte) (pos : Nat) (src : List Byte) : Except Fault (List Byte) :=
  if pos + src.length ≤ dst.length then .ok (splice dst pos src) else .error .outOfBounds

def endDevicePath : List Byte := [endDevicePathType, endEntireDevicePathSubtype, 4, 0]

def endInstanceDevicePath : List Byte := [endDevicePathType, endInstanceDevicePathSubtype, 4, 0]

/-- `DuplicateDevicePath`; a path is what lies in memory from the pointer on. -/
def duplicateDevicePath (pool : Pool) (devPath : Option (List Byte)) :
    Except Fault (Option (List Byte)) :=
  match devPath with
  | none => .ok none
  | some mem => do
    let size ← devicePathSize mem 0
    match pool size with
    | none => return none
    | some newDevPath => return some (← copyMem newDevPath 0 (← readBuffer mem 0 size))

/-- `Dst` and `DstPos` -/
structure Dest where
  buffer : List Byte
  pos : Nat

/-- `CopyMem` to `DstPos`, which then moves on. -/
def Dest.put (dst : Dest) (src : List Byte) : Except Fault Dest := do
  return ⟨← copyMem dst.buffer dst.pos src, dst.pos + src.length⟩

/-- The loop of `AppendDevicePath` over the instances of `Src1`. -/
def appendInstances (mem1 src2 : List Byte) : Nat → Option Nat → Dest → Except Fault Dest
  | 0, _, _ => .error .hang
  | fuel + 1, src1, dst => do
    let (inst, src1) ← devicePathInstance mem1 src1
    match inst with
    | none => return dst
    | some (inst, size) =>
      let dst ← dst.put (← readBuffer mem1 inst size)
      let dst ← dst.put src2
      let dst ← dst.put endInstanceDevicePath
      appendInstances mem1 src2 fuel src1 dst

/-- `AppendDevicePath` -/
def appendDevicePath (A : Arch) (pool : Pool) (src1 src2 : Option (List Byte)) :
    Except Fault (Option (List Byte)) :=
  match src1, src2 with
  | none, src2 => duplicateDevicePath pool src2
  | src1, none => duplicateDevicePath pool src1
  | some mem1, some mem2 => do
    let src1Size ← devicePathSize mem1 0
    let src1Inst ← devicePathInstanceCount mem1 (mem1.length + 1) (some 0)
    let src2Size ← devicePathSize mem2 0
    let size := (src1Size * src1Inst + src2Size) % 2 ^ A.bits
    match pool size with
    | none => return none
    | some buffer =>
      let src2 ← readBuffer mem2 0 src2Size
      let dst ← appendInstances mem1 src2 (mem1.length + 1) (some 0) ⟨buffer, 0⟩
      -- Change last end marker
      let dst ← copyMem dst.buffer (dst.pos - sizeofDevicePath) endDevicePath
      return some dst

/-- What a caller finds that takes one `DevicePathInstance` after the other. -/
def readInstances (mem : List Byte) : Nat → Option Nat → Except Fault (List (List Byte))
  | 0, _ => .error .hang
  | fuel + 1, devicePath => do
    let (inst, devicePath) ← devicePathInstance mem devicePath
    match inst with
    | none => return []
    | some (start, size) =>
      let bytes ← readBuffer mem start size
      return bytes :: (← readInstances mem fuel devicePath)

def devicePathInstances (mem : List Byte) : Except Fault (List (List Byte)) :=
  readInstances mem (mem.length + 1) (some 0)

/-! ## Reading a path -/

variable {mem rest : List Byte} {nodes : List Node} {t : EndType}

/-- Nodes that are cut off are missed. -/
theorem nodesBytes_take_eq {k : Nat} (h : nodesBytes (nodes.take k) = nodesBytes nodes) :
    nodes.length ≤ k := by
  have hsplit := congrArg (fun l => (nodesBytes l).length) (List.take_append_drop k nodes)
  have hdrop := length_le_nodesBytes (nodes.drop k)
  simp only [nodesBytes_append, List.length_append, h] at hsplit
  rw [List.length_drop] at hdrop
  omega

theorem readInstances_none (mem : List Byte) (fuel : Nat) :
    readInstances mem (fuel + 1) none = .ok [] := rfl

theorem devicePathInstances_last (h : Holds mem 0 nodes t endEntireDevicePathSubtype rest)
    (hcount : nodes.length ≤ countLimit + 1) :
    devicePathInstances mem = .ok [nodesBytes nodes] := by
  have hle := h.off_le
  have hread := readBuffer_nodes (k := nodes.length) h
  rw [List.take_length] at hread
  obtain ⟨k, hk⟩ : ∃ k, mem.length = k + 1 := ⟨mem.length - 1, by
    rw [sizeofDevicePath] at hle
    omega⟩
  rw [devicePathInstances, hk, readInstances, devicePathInstance_last h hcount]
  simp only [bind, Except.bind, hread, readInstances_none]
  rfl

/-- The first instance that is found has at most the nodes that the limit allows. -/
theorem readInstances_head (h : Holds mem 0 nodes t endEntireDevicePathSubtype rest)
    (fuel : Nat) :
    Ensures (readInstances mem fuel (some 0)) fun found =>
      ∃ others, found = nodesBytes (nodes.take (countLimit + 1)) :: others := by
  cases fuel with
  | zero => exact Ensures.error
  | succ fuel =>
    obtain ⟨next, sub, -, -, hinst, -⟩ := devicePathInstance_spec h
    rw [readInstances, hinst]
    simp only [bind, Except.bind, readBuffer_nodes h]
    exact Ensures.bind (Ensures.self _) fun others _ => Ensures.pure ⟨others, rfl⟩

/-! ## Writing a path -/

/-- What is written, up to `DstPos`. -/
def Dest.Filled (dst : Dest) (bs : List Byte) : Prop :=
  (∃ behind, dst.buffer = bs ++ behind) ∧ dst.pos = bs.length

/-- What is written, and an end marker at least behind it. -/
def Dest.Begins (dst : Dest) (bs : List Byte) : Prop :=
  (∃ behind, dst.buffer = bs ++ behind) ∧ bs.length + sizeofDevicePath ≤ dst.pos

theorem copyMem_ensures {dst bs src : List Byte} {pos : Nat}
    (h : ∃ behind, dst = bs ++ behind) (hpos : bs.length ≤ pos) :
    Ensures (copyMem dst pos src) fun dst' => ∃ behind, dst' = bs ++ behind := by
  obtain ⟨behind, rfl⟩ := h
  refine Ensures.ite (fun _ => Ensures.ok ?_) fun _ => Ensures.error
  obtain ⟨k, rfl⟩ := Nat.exists_eq_add_of_le hpos
  exact ⟨splice behind k src, splice_append_right bs behind src k⟩

theorem Dest.Begins.put {dst : Dest} {bs : List Byte} (h : dst.Begins bs) (src : List Byte) :
    Ensures (dst.put src) fun dst' => dst'.Begins bs := by
  have hpos := h.2
  refine Ensures.bind (copyMem_ensures h.1 (by omega)) fun buffer hbuffer => Ensures.pure ?_
  exact ⟨hbuffer, Nat.le_add_right_of_le hpos⟩

theorem Dest.Filled.put_room (bs : List Byte) {behind src : List Byte}
    (h : src.length ≤ behind.length) :
    Dest.put ⟨bs ++ behind, bs.length⟩ src =
      .ok ⟨(bs ++ src) ++ behind.drop src.length, (bs ++ src).length⟩ := by
  have hroom : bs.length + src.length ≤ (bs ++ behind).length := by
    rw [List.length_append]
    omega
  have hsplice : splice (bs ++ behind) bs.length src = (bs ++ src) ++ behind.drop src.length := by
    have hright := splice_append_right bs behind src 0
    rw [Nat.add_zero] at hright
    rw [hright, splice, List.take_zero, List.nil_append, Nat.zero_add, List.append_assoc]
  rw [Dest.put, copyMem, if_pos hroom, hsplice, List.length_append]
  rfl

theorem Dest.Filled.put {dst : Dest} {bs : List Byte} (h : dst.Filled bs) (src : List Byte) :
    Ensures (dst.put src) fun dst' => dst'.Filled (bs ++ src) := by
  obtain ⟨⟨behind, hbuffer⟩, hpos⟩ := h
  by_cases hroom : src.length ≤ behind.length
  · have hput := Dest.Filled.put_room bs hroom
    rw [← hbuffer, ← hpos] at hput
    rw [show dst.put src = _ from hput]
    exact Ensures.ok ⟨⟨_, rfl⟩, rfl⟩
  · have hno : ¬ dst.pos + src.length ≤ dst.buffer.length := by
      rw [hpos, hbuffer, List.length_append]
      omega
    rw [Dest.put, copyMem, if_neg hno]
    exact Ensures.error

/-- The turns of the loop leave alone what is written before them. -/
theorem appendInstances_begins {mem1 src2 bs : List Byte} (fuel : Nat) (src1 : Option Nat)
    {dst : Dest} (h : dst.Begins bs) :
    Ensures (appendInstances mem1 src2 fuel src1 dst) fun dst' => dst'.Begins bs := by
  induction fuel generalizing src1 dst with
  | zero => exact Ensures.error
  | succ fuel ih =>
    refine Ensures.bind (Ensures.self _) fun r _ => ?_
    cases hinst : r.1 with
    | none =>
      obtain ⟨inst, next⟩ := r
      cases hinst
      exact Ensures.pure h
    | some inst =>
      obtain ⟨inst', next⟩ := r
      cases hinst
      refine Ensures.bind (Ensures.self _) fun bytes _ => ?_
      refine Ensures.bind (h.put bytes) fun dst1 h1 => ?_
      refine Ensures.bind (h1.put src2) fun dst2 h2 => ?_
      refine Ensures.bind (h2.put endInstanceDevicePath) fun dst3 h3 => ?_
      exact ih next h3

/-- The first turn copies the first instance, as far as the limit allows, and all of `Src2`. -/
theorem appendInstances_first {mem1 src2 : List Byte} {subType : Byte} {buffer : List Byte}
    (h : Holds mem1 0 nodes t subType rest) (fuel : Nat) :
    Ensures (appendInstances mem1 src2 fuel (some 0) ⟨buffer, 0⟩) fun dst =>
      dst.Begins (nodesBytes (nodes.take (countLimit + 1)) ++ src2) := by
  cases fuel with
  | zero => exact Ensures.error
  | succ fuel =>
    obtain ⟨next, sub, -, -, hinst, -⟩ := devicePathInstance_spec h
    have hread : readBuffer mem1 0 (nodesBytes (nodes.take (countLimit + 1))).length =
        .ok (nodesBytes (nodes.take (countLimit + 1))) := by
      have hdrop := h.drop
      rw [← List.take_append_drop (countLimit + 1) nodes, nodesBytes_append,
        List.append_assoc] at hdrop
      exact readBuffer_of_drop hdrop (Nat.zero_le _)
    have hempty : Dest.Filled ⟨buffer, 0⟩ [] := ⟨⟨buffer, rfl⟩, rfl⟩
    rw [appendInstances, hinst]
    simp only [bind, Except.bind, hread]
    refine Ensures.bind (hempty.put _) fun dst1 h1 => ?_
    refine Ensures.bind (h1.put src2) fun dst2 h2 => ?_
    refine Ensures.bind (h2.put endInstanceDevicePath) fun dst3 h3 => ?_
    refine appendInstances_begins fuel _ ?_
    obtain ⟨⟨behind, hbuffer⟩, hpos⟩ := h3
    rw [List.nil_append] at hbuffer hpos
    refine ⟨⟨endInstanceDevicePath ++ behind, ?_⟩, ?_⟩
    · rw [hbuffer, List.append_assoc _ endInstanceDevicePath]
    · rw [hpos, List.length_append, List.length_append, List.length_append]
      exact Nat.le_refl _

/-! ## What is returned -/

/-- The property of `AppendDevicePath`: what it returns is read as the instances of `Src1`, each
    with the nodes of `Src2` behind its own.  Every write lies in the buffer, or there would be a
    fault. -/
def AppendsToEvery (A : Arch) (pool : Pool) (p : Path) (nodes2 : List Node) (t2 : EndType)
    (rest1 rest2 : List Byte) : Prop :=
  ∃ dst, appendDevicePath A pool (some (p.bytes ++ rest1))
      (some ((Path.last nodes2 t2).bytes ++ rest2)) = .ok (some dst) ∧
    devicePathInstances dst =
      .ok (p.instances.map fun nodes => nodesBytes (nodes ++ nodes2))

/-- The one turn of the loop over a path of one instance fills its buffer. -/
theorem appendInstances_single {mem1 src2 buffer : List Byte}
    (h : Holds mem1 0 nodes t endEntireDevicePathSubtype rest)
    (hcount : nodes.length ≤ countLimit + 1)
    (hbuffer : buffer.length = (nodesBytes nodes).length + src2.length +
      endInstanceDevicePath.length) :
    appendInstances mem1 src2 (mem1.length + 1) (some 0) ⟨buffer, 0⟩ =
      .ok ⟨nodesBytes nodes ++ src2 ++ endInstanceDevicePath, buffer.length⟩ := by
  have hle := h.off_le
  obtain ⟨k, hk⟩ : ∃ k, mem1.length = k + 1 := ⟨mem1.length - 1, by
    rw [sizeofDevicePath] at hle
    omega⟩
  have hread := readBuffer_nodes (k := nodes.length) h
  rw [List.take_length] at hread
  have hput1 : Dest.put ⟨buffer, 0⟩ (nodesBytes nodes) =
      .ok ⟨nodesBytes nodes ++ buffer.drop (nodesBytes nodes).length,
        (nodesBytes nodes).length⟩ :=
    Dest.Filled.put_room [] (by omega)
  have hroom2 : src2.length ≤ (buffer.drop (nodesBytes nodes).length).length := by
    rw [List.length_drop]
    omega
  have hroom3 : endInstanceDevicePath.length ≤
      ((buffer.drop (nodesBytes nodes).length).drop src2.length).length := by
    rw [List.length_drop, List.length_drop]
    omega
  have hput2 := Dest.Filled.put_room (nodesBytes nodes) hroom2
  have hput3 := Dest.Filled.put_room (nodesBytes nodes ++ src2) hroom3
  have hall : ((buffer.drop (nodesBytes nodes).length).drop src2.length).drop
      endInstanceDevicePath.length = [] := by
    rw [List.drop_drop, List.drop_drop, List.drop_eq_nil_iff]
    omega
  rw [hk, appendInstances, devicePathInstance_last h hcount]
  simp only [bind, Except.bind, hread, hput1, hput2, hput3, hall, List.append_nil]
  rw [appendInstances, hbuffer, List.length_append, List.length_append]
  rfl

theorem readBuffer_last (nodes : List Node) (t : EndType) (rest : List Byte) :
    readBuffer ((Path.last nodes t).bytes ++ rest) 0
      ((nodesBytes nodes).length + sizeofDevicePath) = .ok (Path.last nodes t).bytes := by
  have hdrop : List.drop 0 ((Path.last nodes t).bytes ++ rest) =
      (Path.last nodes t).bytes ++ rest := rfl
  have hread := readBuffer_of_drop hdrop (Nat.zero_le _)
  rw [Path.bytes, List.length_append, length_endMarker] at hread
  exact hread

/-- The buffer begins with the first instance, the nodes of `Src2` and the marker of `Src2` that
    ends the entire path. -/
theorem appendDevicePath_begins (A : Arch) (pool : Pool) {mem1 : List Byte} {subType : Byte}
    (h1 : Holds mem1 0 nodes t subType rest) (nodes2 : List Node) (t2 : EndType)
    (rest2 : List Byte) :
    Ensures (appendDevicePath A pool (some mem1)
        (some ((Path.last nodes2 t2).bytes ++ rest2))) fun dst => ∀ buffer, dst = some buffer →
      ∃ behind, Holds buffer 0 (nodes.take (countLimit + 1) ++ nodes2) t2
        endEntireDevicePathSubtype behind := by
  have h2 := Path.last_holds nodes2 t2 rest2
  have hread := readBuffer_last nodes2 t2 rest2
  rw [appendDevicePath, devicePathSize_spec h2]
  refine Ensures.bind (Ensures.self _) fun src1Size _ => ?_
  refine Ensures.bind (Ensures.self _) fun src1Inst _ => ?_
  refine Ensures.bind (Ensures.self _) fun src2Size hsize => ?_
  cases hsize
  cases hpool : pool ((src1Size * src1Inst + ((nodesBytes nodes2).length + sizeofDevicePath)) %
      2 ^ A.bits) with
  | none =>
    simp only [hpool]
    exact Ensures.pure fun buffer hbuffer => by cases hbuffer
  | some buffer =>
    simp only [hpool, hread]
    refine Ensures.bind (P := fun src2 => src2 = (Path.last nodes2 t2).bytes) (Ensures.ok rfl)
      fun src2 hsrc2 => ?_
    subst hsrc2
    refine Ensures.bind (appendInstances_first h1 _) fun dst hdst => ?_
    have hpos := hdst.2
    refine Ensures.bind (copyMem_ensures hdst.1 (by omega)) fun last hlast => Ensures.pure ?_
    rintro buffer' ⟨⟩
    obtain ⟨behind, rfl⟩ := hlast
    refine ⟨behind, ⟨?_⟩⟩
    rw [List.drop_zero, Path.bytes, nodesBytes_append]
    simp only [List.append_assoc]

/-- A first path of one instance, with room for the nodes of both. -/
theorem appendDevicePath_single (A : Arch) (pool : Pool) (hpool : ∀ size, (pool size).isSome)
    {nodes nodes2 : List Node} (hcount : nodes.length + nodes2.length ≤ countLimit + 1)
    (t t2 : EndType) (rest1 rest2 : List Byte) :
    ∃ dst, appendDevicePath A pool (some ((Path.last nodes t).bytes ++ rest1))
        (some ((Path.last nodes2 t2).bytes ++ rest2)) = .ok (some dst) := by
  have h1 := Path.last_holds nodes t rest1
  have h2 := Path.last_holds nodes2 t2 rest2
  have hone := length_nodesBytes_le nodes
  have htwo := length_nodesBytes_le nodes2
  -- what is asked for is what the one turn of the loop writes
  have hsize : (((nodesBytes nodes).length + sizeofDevicePath) * 1 +
      ((nodesBytes nodes2).length + sizeofDevicePath)) % 2 ^ A.bits =
      (nodesBytes nodes).length + (Path.last nodes2 t2).bytes.length +
        endInstanceDevicePath.length := by
    have hbits := A.two_pow_32_le
    rw [countLimit] at hcount
    rw [Path.bytes, List.length_append, length_endMarker, sizeofDevicePath,
      show endInstanceDevicePath.length = 4 from rfl, Nat.mod_eq_of_lt (by omega)]
    omega
  obtain ⟨⟨buffer, hbuffer⟩, halloc⟩ := Option.isSome_iff_exists.mp (hpool
    ((((nodesBytes nodes).length + sizeofDevicePath) * 1 +
      ((nodesBytes nodes2).length + sizeofDevicePath)) % 2 ^ A.bits))
  rw [hsize] at hbuffer
  have hread2 := readBuffer_last nodes2 t2 rest2
  have hloop := appendInstances_single h1 (by omega) hbuffer
  have hcountOne := devicePathInstanceCount_last h1 (by omega) h1.two_le
  refine ⟨splice (nodesBytes nodes ++ (Path.last nodes2 t2).bytes ++ endInstanceDevicePath)
    (buffer.length - sizeofDevicePath) endDevicePath, ?_⟩
  rw [appendDevicePath, devicePathSize_spec h1, devicePathSize_spec h2, hcountOne]
  simp only [bind, Except.bind, halloc, hread2, hloop]
  rw [copyMem, if_pos]
  · rfl
  · rw [List.length_append, List.length_append, hbuffer,
      show endInstanceDevicePath.length = 4 from rfl, show endDevicePath.length = 4 from rfl,
      sizeofDevicePath]
    omega

/-- `AppendDevicePath` appends to a path of one instance, and to no other. -/
theorem appendDevicePath_appends_iff (A : Arch) (pool : Pool)
    (hpool : ∀ size, (pool size).isSome) (p : Path) (nodes2 : List Node) (t2 : EndType)
    (rest1 rest2 : List Byte) :
    AppendsToEvery A pool p nodes2 t2 rest1 rest2 ↔ p.instances.length = 1 ∧
      ∀ nodes ∈ p.instances, nodes.length + nodes2.length ≤ countLimit + 1 := by
  constructor
  · rintro ⟨dst, happend, hparse⟩
    obtain ⟨nodes, t, subType, behind, hholds, hhead⟩ := p.holds rest1
    obtain ⟨rest, hdst⟩ := appendDevicePath_begins A pool hholds nodes2 t2 rest2 _ happend dst rfl
    obtain ⟨instances, hinstances⟩ : ∃ l, p.instances = nodes :: l :=
      List.head?_eq_some_iff.mp hhead
    obtain ⟨others, hothers⟩ := readInstances_head hdst _ _ hparse
    rw [hinstances, List.map_cons, List.cons.injEq] at hothers
    have htake : (nodes.take (countLimit + 1) ++ nodes2).take (countLimit + 1) =
        (nodes ++ nodes2).take (countLimit + 1) := by
      simp only [List.take_append, List.take_take, List.length_take]
      congr 2
      omega
    rw [htake] at hothers
    have hcount := nodesBytes_take_eq hothers.1.symm
    rw [List.length_append] at hcount
    -- all of the first instance is copied, and the marker behind it ends the entire path
    rw [List.take_of_length_le (by omega)] at hdst
    have hlast := devicePathInstances_last hdst (by rw [List.length_append]; omega)
    rw [hparse, hinstances, List.map_cons] at hlast
    have hnil : instances = [] := by
      have := Except.ok.inj hlast
      simpa using this
    rw [hinstances, hnil]
    refine ⟨rfl, fun nodes' hmem => ?_⟩
    rw [List.mem_singleton.mp hmem]
    exact hcount
  · rintro ⟨hone, hcount⟩
    cases p with
    | more nodes t p =>
      have hpos := List.length_pos_iff.mpr p.instances_ne_nil
      rw [Path.instances, List.length_cons] at hone
      omega
    | last nodes t =>
      have hle := hcount nodes (List.mem_singleton.mpr rfl)
      obtain ⟨dst, hdst⟩ := appendDevicePath_single A pool hpool hle t t2 rest1 rest2
      refine ⟨dst, hdst, ?_⟩
      obtain ⟨rest, hholds⟩ := appendDevicePath_begins A pool
        (Path.last_holds nodes t rest1) nodes2 t2 rest2 _ hdst dst rfl
      rw [List.take_of_length_le (by omega)] at hholds
      exact devicePathInstances_last hholds (by rw [List.length_append]; exact hle)

/-- Pool that never runs out, and is cleared. -/
def zeroPool : Pool := fun size => some ⟨List.replicate size 0, List.length_replicate⟩

theorem appendDevicePath_appends_controller :
    AppendsToEvery .efi64 zeroPool (.last [controllerNode] endType) [controllerNode] endType []
      [] := by
  apply (appendDevicePath_appends_iff .efi64 zeroPool (fun _ => rfl)
    (.last [controllerNode] endType) [controllerNode] endType [] []).mpr
  refine ⟨rfl, fun nodes hmem => ?_⟩
  rw [List.mem_singleton.mp hmem]
  decide

/-- Of two instances the second one is lost: the marker behind the first copy of `Src2` ends the
    entire path.  Where `Src2` is longer than `Src1` the copies do not fit into the buffer. -/
theorem appendDevicePath_two_instances :
    let two := Path.more [] endType (.last [] endType)
    ¬ AppendsToEvery .efi64 zeroPool two [] endType [] [] ∧
      appendDevicePath .efi64 zeroPool (some two.bytes)
        (some (Path.last [controllerNode] endType).bytes) = .error .outOfBounds := by
  constructor
  · rintro ⟨dst, happend, hparse⟩
    have hlost : appendDevicePath .efi64 zeroPool
        (some ((Path.more [] endType (.last [] endType)).bytes ++ []))
        (some ((Path.last [] endType).bytes ++ [])) =
        .ok (some [0x7F, 0xFF, 4, 0, 0x7F, 0x01, 4, 0, 0x7F, 0xFF, 4, 0, 0x7F, 0xFF, 4, 0,
          0, 0, 0, 0]) := rfl
    rw [hlost] at happend
    cases happend
    have hone : devicePathInstances [0x7F, 0xFF, 4, 0, 0x7F, 0x01, 4, 0, 0x7F, 0xFF, 4, 0, 0x7F,
        0xFF, 4, 0, 0, 0, 0, 0] = .ok [[]] := rfl
    rw [hone] at hparse
    cases hparse
  · rfl

end EfiCore.DevPath
