import EfiCore.Ebc.Vm

/-! # Data manipulation and comparison

`ExecuteDataManip` with the operations that it dispatches to, `ExecuteCMP` and `ExecuteCMPI`.
-/

namespace EfiCore.Ebc

open EfiCore.Lib

/-! ## Operations -/

/-- What an operation makes of its operands: a value, the exception for a division by zero, or the
processor's own for a quotient that does not fit. -/
inductive Computed where
  | value (x : BitVec 64)
  | divideError
  | fault

variable (u : Unspecified)

/-- `mDataManipDispatchTable`, in its order. -/
inductive DataManip where
  | not | neg | add | sub | mul | mulu | div | divu | mod | modu
  | and | or | xor | shl | shr | ashr | extndb | extndw | extndd
  deriving DecidableEq, Repr

def mDataManipDispatchTable : List DataManip :=
  [.not, .neg, .add, .sub, .mul, .mulu, .div, .divu, .mod, .modu,
    .and, .or, .xor, .shl, .shr, .ashr, .extndb, .extndw, .extndd]

def low (x : BitVec 64) : BitVec 32 := x.setWidth 32

/-- `(UINT32) a << (UINT32) b` -/
def shl32 (a b : BitVec 32) : BitVec 32 := if b.toNat < 32 then a <<< b.toNat else u.shl a b

def shr32 (a b : BitVec 32) : BitVec 32 := if b.toNat < 32 then a >>> b.toNat else u.shr a b

def sar32 (a b : BitVec 32) : BitVec 32 :=
  if b.toNat < 32 then a.sshiftRight b.toNat else u.sar a b

/-- `ExecuteDIV` -/
def executeDIV (is64 : Bool) (op1 op2 : BitVec 64) : Computed :=
  if op2 = 0#64 then .divideError
  else if is64 then .value (divS64x64 op1 op2).1
  else if low op2 = 0#32 ∨ (low op1 = BitVec.intMin 32 ∧ low op2 = -1#32) then .fault
  else .value (((low op1).sdiv (low op2)).signExtend 64)

/-- `ExecuteDIVU` -/
def executeDIVU (is64 : Bool) (op1 op2 : BitVec 64) : Computed :=
  if op2 = 0#64 then .divideError
  else if is64 then .value (divU64x64 op1 op2).1
  else if low op2 = 0#32 then .fault
  else .value ((low op1 / low op2).setWidth 64)

/-- `ExecuteNOT` to `ExecuteEXTNDD` -/
def DataManip.execute (is64 : Bool) (op1 op2 : BitVec 64) : DataManip → Computed
  | .not => .value (~~~op2)
  | .neg => .value (~~~op2 + 1#64)
  | .add => .value (op1 + op2)
  | .sub => .value (if is64 then op1 - op2 else (low op1 - low op2).signExtend 64)
  | .mul => .value (if is64 then (mulS64x64 op1 op2).1 else (low op1 * low op2).signExtend 64)
  | .mulu => .value (if is64 then (mulU64x64 op1 op2).1 else (low op1 * low op2).setWidth 64)
  | .div => executeDIV is64 op1 op2
  | .divu => executeDIVU is64 op1 op2
  | .mod => if op2 = 0#64 then .divideError else .value (divS64x64 op1 op2).2.1
  | .modu => if op2 = 0#64 then .divideError else .value (divU64x64 op1 op2).2.1
  | .and => .value (op1 &&& op2)
  | .or => .value (op1 ||| op2)
  | .xor => .value (op1 ^^^ op2)
  | .shl => .value (if is64 then leftShiftU64 op1 op2
      else (shl32 u (low op1) (low op2)).setWidth 64)
  | .shr => .value (if is64 then rightShiftU64 op1 op2
      else (shr32 u (low op1) (low op2)).setWidth 64)
  | .ashr => .value (if is64 then aRightShift64 u.bit63 op1 op2
      else (sar32 u (low op1) (low op2)).signExtend 64)
  | .extndb => .value ((op2.setWidth 8).signExtend 64)
  | .extndw => .value ((op2.setWidth 16).signExtend 64)
  | .extndd => .value ((low op2).signExtend 64)

/-! ## The instruction -/

variable (A : Arch)

/-- A 32-bit operand in a 64-bit variable. -/
def narrow (isSignedOp : Bool) (x : BitVec 64) : BitVec 64 :=
  if isSignedOp then (low x).signExtend 64 else (low x).setWidth 64

/-- An operand: what `addr` holds if it is indirect, and else `addr` itself. -/
def Vm.operand (vm : Vm) (isSignedOp indirect : Bool) (addr : BitVec 64) : BitVec 64 × Vm :=
  let read := if indirect then vm.load A addr else (addr, vm)
  (if vm.is64Bit then read.1 else narrow isSignedOp read.1, read.2)

/-- The result to operand 1; a 32-bit one clears the register's upper bits. -/
def Vm.writeBack (vm : Vm) (x : BitVec 64) : Vm :=
  if vm.operand1Indirect then vm.store A (vm.r vm.operand1) x
  else vm.setR vm.operand1 (if vm.is64Bit then x else x &&& 0xFFFFFFFF#64)

/-- `ExecuteDataManip`. The result is empty if the processor itself faults. -/
def executeDataManip (isSignedOp : Bool) (vm : Vm) : Option Vm :=
  let size := vm.size16
  let opcode := (vm.opcode &&& 0x3F#8).toNat
  let source := vm.r vm.operand2 + (vm.index16 A).signExtend 64
  let op2 := vm.read16.operand A isSignedOp vm.operand2Indirect source
  let op1 := op2.2.operand A isSignedOp vm.operand1Indirect (vm.r vm.operand1)
  let vm := op1.2
  -- the subtraction is unsigned: an opcode below `OPCODE_NOT` is out of range as well
  if opcode < 0x0A then some ((vm.signalException .invalidOpcode .error).advance A size)
  else if let some operation := mDataManipDispatchTable[opcode - 0x0A]? then
    match operation.execute u vm.is64Bit op1.1 op2.1 with
    | .value x => some ((vm.writeBack A x).advance A size)
    | .divideError =>
      some (((vm.signalException .divideError .fatal).writeBack A 0).advance A size)
    | .fault => none
  else some ((vm.signalException .invalidOpcode .error).advance A size)

/-! ## Comparison -/

inductive Comparison where
  | eq | lte | gte | ulte | ugte
  deriving DecidableEq, Repr

/-- The comparison of an opcode, with `first` that of `eq`. Other opcodes do not get there. -/
def Comparison.ofOpcode (first opcode : Nat) : Option Comparison :=
  [.eq, .lte, .gte, .ulte, .ugte][opcode - first]?

def Comparison.compare {w : Nat} (a b : BitVec w) : Comparison → Bool
  | .eq => a == b
  | .lte => a.sle b
  | .gte => b.sle a
  | .ulte => a.ule b
  | .ugte => b.ule a

/-- `ExecuteCMP` -/
def executeCMP (vm : Vm) : Vm :=
  let size := vm.size16
  let op1 := vm.r vm.operand1
  let source := vm.r vm.operand2 + (vm.index16 A).signExtend 64
  let comparison := Comparison.ofOpcode 0x05 (vm.opcode &&& 0x3F#8).toNat
  let is64 := vm.is64Bit
  let op2 := if vm.operand2Indirect then vm.read16.load A source else (source, vm.read16)
  let flag := comparison.any fun c =>
    if is64 then c.compare op1 op2.1 else c.compare (low op1) (low op2.1)
  (op2.2.setCC flag).advance A size

/-- `OPERAND_M_CMPI_INDEX` -/
def Vm.cmpiIndex (vm : Vm) : Bool := vm.operands.getLsbD 4

/-- A comparison with an immediate, which is signed; a 64-bit unsigned one drops its upper half, a
32-bit signed one has operand 1 widened. -/
def Comparison.compareImmediate (is64 : Bool) (op1 op2 : BitVec 64) (c : Comparison) : Bool :=
  match c, is64 with
  | .ulte, true => op1.ule ((low op2).setWidth 64)
  | .ugte, true => ((low op2).setWidth 64).ule op1
  | .ulte, false => (low op1).ule (low op2)
  | .ugte, false => (low op2).ule (low op1)
  | c, true => c.compare op1 op2
  | c, false => c.compare ((low op1).signExtend 64) op2

/-- `ExecuteCMPI` -/
def executeCMPI (vm : Vm) : Vm :=
  let is64 := vm.is64Bit
  let immediate32 := vm.immData
  let comparison := Comparison.ofOpcode 0x2D (vm.opcode &&& 0x3F#8).toNat
  let index16 := if vm.cmpiIndex then vmReadIndex16 A vm.host.memory vm.ip 2 else 0
  let size := if vm.cmpiIndex then 4 else 2
  let fetched := if vm.cmpiIndex then vm.codeRead 2 else vm
  if !vm.operand1Indirect && vm.cmpiIndex then
    (fetched.signalException .instructionEncoding .error).advance A size
  else
    let base := vm.r vm.operand1
    let op1 := if vm.operand1Indirect then fetched.load A (base + index16.signExtend 64)
      else (base, fetched)
    let vm := op1.2
    let op2 := if immediate32 then (vmReadCode32 vm.host.memory vm.ip size).signExtend 64
      else (vmReadCode16 vm.host.memory vm.ip size).signExtend 64
    let vm := vm.codeRead size
    let size := if immediate32 then size + 4 else size + 2
    (vm.setCC (comparison.any (·.compareImmediate is64 op1.1 op2))).advance A size

/-! ## Dispatch -/

inductive ExecFunction where
  | cmp
  | cmpi
  | dataManip (isSignedOp : Bool)
  deriving DecidableEq, Repr

/-- `mVmOpcodeTable` from 0x05 to 0x1C, and from 0x2D to 0x31. -/
def execFunction (opcode : Nat) : Option ExecFunction :=
  if opcode < 0x05 then none
  else if opcode < 0x2D then
    [.cmp, .cmp, .cmp, .cmp, .cmp, .dataManip false, .dataManip true, .dataManip true,
      .dataManip true, .dataManip true, .dataManip false, .dataManip true, .dataManip false,
      .dataManip true, .dataManip false, .dataManip false, .dataManip false, .dataManip false,
      .dataManip false, .dataManip false, .dataManip true, .dataManip false, .dataManip false,
      .dataManip false][opcode - 0x05]?
  else if opcode ≤ 0x31 then some .cmpi
  else none

def ExecFunction.run (vm : Vm) : ExecFunction → Option Vm
  | .cmp => some (executeCMP A vm)
  | .cmpi => some (executeCMPI A vm)
  | .dataManip isSignedOp => executeDataManip u A isSignedOp vm

/-- The instruction has no operand in memory. -/
def ExecFunction.Direct (vm : Vm) : ExecFunction → Prop
  | .cmpi => vm.operand1Indirect = false
  | _ => vm.operand1Indirect = false ∧ vm.operand2Indirect = false

/-! ## Lower halves -/

/-- The two machines differ at most in the upper halves of their registers. -/
structure LowAlike (vm vm' : Vm) : Prop where
  rest : vm' = { vm with r := vm'.r }
  lower : ∀ i, low (vm'.r i) = low (vm.r i)

section Lower

variable {u A} {vm vm' w : Vm} {isSignedOp : Bool} {x : BitVec 64} {r : Fin 8 → BitVec 64}

def Vm.withR (vm : Vm) (r : Fin 8 → BitVec 64) : Vm := { vm with r := r }

namespace Vm

@[simp] theorem opcode_withR : (vm.withR r).opcode = vm.opcode := rfl

@[simp] theorem operand1_withR : (vm.withR r).operand1 = vm.operand1 := rfl

@[simp] theorem operand2_withR : (vm.withR r).operand2 = vm.operand2 := rfl

@[simp] theorem operand1Indirect_withR : (vm.withR r).operand1Indirect = vm.operand1Indirect := rfl

@[simp] theorem operand2Indirect_withR : (vm.withR r).operand2Indirect = vm.operand2Indirect := rfl

@[simp] theorem is64Bit_withR : (vm.withR r).is64Bit = vm.is64Bit := rfl

@[simp] theorem immData_withR : (vm.withR r).immData = vm.immData := rfl

@[simp] theorem index16_withR : (vm.withR r).index16 A = vm.index16 A := rfl

@[simp] theorem size16_withR : (vm.withR r).size16 = vm.size16 := rfl

@[simp] theorem cmpiIndex_withR : (vm.withR r).cmpiIndex = vm.cmpiIndex := rfl

@[simp] theorem r_withR : (vm.withR r).r = r := rfl

@[simp] theorem host_withR : (vm.withR r).host = vm.host := rfl

@[simp] theorem ip_withR : (vm.withR r).ip = vm.ip := rfl

theorem signalException_withR (e : Exception) (s : Severity) :
    (vm.withR r).signalException e s = (vm.signalException e s).withR r := rfl

theorem setCC_withR (flag : Bool) : (vm.withR r).setCC flag = (vm.setCC flag).withR r := rfl

theorem advance_withR (size : Nat) :
    (vm.withR r).advance A size = (vm.advance A size).withR r := rfl

theorem codeRead_withR (offset : Nat) :
    (vm.withR r).codeRead offset = (vm.codeRead offset).withR r := by
  by_cases h : isAligned (vm.ip + offset) 2 <;> simp [codeRead, h, signalException_withR]

theorem read16_withR : (vm.withR r).read16 = vm.read16.withR r := by
  by_cases h : vm.immData <;> simp [read16, h, codeRead_withR]

/-! The code is not changed by reading it. -/

@[simp] theorem host_codeRead (offset : Nat) : (vm.codeRead offset).host = vm.host := by
  rw [codeRead]
  split <;> rfl

@[simp] theorem r_codeRead (offset : Nat) : (vm.codeRead offset).r = vm.r := by
  rw [codeRead]
  split <;> rfl

@[simp] theorem ip_codeRead (offset : Nat) : (vm.codeRead offset).ip = vm.ip := by
  rw [codeRead]
  split <;> rfl

@[simp] theorem host_read16 : vm.read16.host = vm.host := by
  by_cases h : vm.immData <;> simp [read16, h]

@[simp] theorem r_read16 : vm.read16.r = vm.r := by
  by_cases h : vm.immData <;> simp [read16, h]

@[simp] theorem ip_read16 : vm.read16.ip = vm.ip := by
  by_cases h : vm.immData <;> simp [read16, h]

@[simp] theorem is64Bit_read16 : vm.read16.is64Bit = vm.is64Bit := by simp [is64Bit, opcode]

@[simp] theorem operand1_read16 : vm.read16.operand1 = vm.operand1 := by simp [operand1, operands]

@[simp] theorem operand1Indirect_read16 : vm.read16.operand1Indirect = vm.operand1Indirect := by
  simp [operand1Indirect, operands]

theorem operand_direct (h32 : vm.is64Bit = false) :
    vm.operand A isSignedOp false x = (narrow isSignedOp x, vm) := by
  simp [operand, h32]

theorem writeBack_direct (h32 : vm.is64Bit = false) (hd : vm.operand1Indirect = false) :
    vm.writeBack A x = vm.setR vm.operand1 (x &&& 0xFFFFFFFF#64) := by
  simp [writeBack, h32, hd]

end Vm

/-- What is left of a data manipulation once its operands are there. -/
def manipulated (A : Arch) (vm : Vm) (size : Nat) (computed : Computed) :
    Option Vm :=
  match computed with
  | .value x => some ((vm.setR vm.operand1 (x &&& 0xFFFFFFFF#64)).advance A size)
  | .divideError =>
    some (((vm.signalException .divideError .fatal).setR vm.operand1 0#64).advance A size)
  | .fault => none

theorem executeDataManip_direct (h32 : vm.is64Bit = false) (hd1 : vm.operand1Indirect = false)
    (hd2 : vm.operand2Indirect = false) {k : Nat} {operation : DataManip}
    (hopcode : (vm.opcode &&& 0x3F#8).toNat = 0x0A + k)
    (hoperation : mDataManipDispatchTable[k]? = some operation) :
    executeDataManip u A isSignedOp vm = manipulated A vm.read16 vm.size16
      (operation.execute u false (narrow isSignedOp (vm.r vm.operand1))
        (narrow isSignedOp (vm.r vm.operand2 + (vm.index16 A).signExtend 64))) := by
  have hread : vm.read16.is64Bit = false := by rw [Vm.is64Bit_read16, h32]
  have hread1 : vm.read16.operand1Indirect = false := by rw [Vm.operand1Indirect_read16, hd1]
  have hin : ¬0x0A + k < 0x0A := by omega
  simp only [executeDataManip, hd1, hd2, Vm.operand_direct hread, hopcode, if_neg hin,
    Nat.add_sub_cancel_left, hoperation, hread]
  generalize operation.execute u false _ _ = computed
  cases computed with
  | value x =>
    simp only [manipulated]
    rw [Vm.writeBack_direct hread hread1]
  | divideError =>
    simp only [manipulated]
    have hwritten : (vm.read16.signalException .divideError .fatal).writeBack A 0 = _ :=
      Vm.writeBack_direct hread hread1
    rw [hwritten]
    rfl
  | fault => rfl

/-- The upper half is clear. -/
theorem and_mask_shift (x : BitVec 64) : (x &&& 0xFFFFFFFF#64) >>> 32 = 0#64 := by
  have hmask : (0xFFFFFFFF#64) >>> 32 = 0#64 := by decide
  rw [BitVec.ushiftRight_and_distrib, hmask, BitVec.and_zero]

theorem narrow_congr {x y : BitVec 64} (h : low x = low y) :
    narrow isSignedOp x = narrow isSignedOp y := by
  rw [narrow, narrow, h]

theorem low_add {a a' b : BitVec 64} (h : low a = low a') : low (a + b) = low (a' + b) := by
  rw [low, low, BitVec.setWidth_add _ _ (by decide), BitVec.setWidth_add _ _ (by decide)]
  exact congrArg (· + _) h

/-- The two machines differ no more than before, and a data manipulation has cleared the upper half
of its destination. -/
structure SameLower (f : ExecFunction) (dest : Fin 8) (w w' : Vm) : Prop where
  alike : LowAlike w w'
  clear : ∀ s, f = .dataManip s → (w.r dest) >>> 32 = 0#64 ∧ (w'.r dest) >>> 32 = 0#64

theorem setR_alike {s : Bool} {size : Nat} (h : ∀ i, low (r i) = low (vm.r i)) (y : BitVec 64) :
    SameLower (.dataManip s) vm.operand1
      ((vm.setR vm.operand1 (y &&& 0xFFFFFFFF#64)).advance A size)
      (((vm.withR r).setR vm.operand1 (y &&& 0xFFFFFFFF#64)).advance A size) := by
  refine ⟨⟨rfl, fun i => ?_⟩, fun _ _ => ⟨?_, ?_⟩⟩
  · by_cases hi : i = vm.operand1
    · subst hi
      simp [Vm.setR, Vm.advance]
    · simpa [Vm.setR, Vm.advance, hi] using h i
  · simp [Vm.setR, Vm.advance, and_mask_shift]
  · simp [Vm.setR, Vm.advance, and_mask_shift]

theorem manipulated_alike {s : Bool} {size : Nat} (computed : Computed)
    (h : ∀ i, low (r i) = low (vm.r i)) :
    Option.Rel (SameLower (.dataManip s) vm.operand1) (manipulated A vm size computed)
      (manipulated A (vm.withR r) size computed) := by
  cases computed with
  | value y => exact .some (setR_alike h y)
  | divideError =>
    have hr : ∀ i, low (r i) = low ((vm.signalException .divideError .fatal).r i) := h
    exact .some (setR_alike hr 0)
  | fault => exact .none

/-- Whatever the operation does, its operands are the same. -/
theorem executeDataManip_alike (h : ∀ i, low (r i) = low (vm.r i)) (h32 : vm.is64Bit = false)
    (hd1 : vm.operand1Indirect = false) (hd2 : vm.operand2Indirect = false) {k : Nat}
    {operation : DataManip} (hopcode : (vm.opcode &&& 0x3F#8).toNat = 0x0A + k)
    (hoperation : mDataManipDispatchTable[k]? = some operation) :
    Option.Rel (SameLower (.dataManip isSignedOp) vm.operand1)
      (executeDataManip u A isSignedOp vm) (executeDataManip u A isSignedOp (vm.withR r)) := by
  have hop1 : narrow isSignedOp (r vm.operand1) = narrow isSignedOp (vm.r vm.operand1) :=
    narrow_congr (h _)
  have hop2 : narrow isSignedOp (r vm.operand2 + (vm.index16 A).signExtend 64) =
      narrow isSignedOp (vm.r vm.operand2 + (vm.index16 A).signExtend 64) :=
    narrow_congr (low_add (h _))
  have h32' : (vm.withR r).is64Bit = false := h32
  have hd1' : (vm.withR r).operand1Indirect = false := hd1
  have hd2' : (vm.withR r).operand2Indirect = false := hd2
  have hopcode' : ((vm.withR r).opcode &&& 0x3F#8).toNat = 0x0A + k := hopcode
  rw [executeDataManip_direct h32 hd1 hd2 hopcode hoperation,
    executeDataManip_direct h32' hd1' hd2' hopcode' hoperation, Vm.read16_withR]
  simp only [Vm.r_withR, Vm.operand1_withR, Vm.operand2_withR, Vm.index16_withR, Vm.size16_withR,
    hop1, hop2]
  rw [← Vm.operand1_read16]
  exact manipulated_alike _ (by simpa using h)

theorem executeCMP_alike (h : ∀ i, low (r i) = low (vm.r i)) (h32 : vm.is64Bit = false)
    (hd2 : vm.operand2Indirect = false) {dest : Fin 8} :
    SameLower .cmp dest (executeCMP A vm) (executeCMP A (vm.withR r)) := by
  have hop2 : low (r vm.operand2 + (vm.index16 A).signExtend 64) =
      low (vm.r vm.operand2 + (vm.index16 A).signExtend 64) := low_add (h _)
  refine ⟨?_, fun _ hf => by cases hf⟩
  simp only [executeCMP, Vm.operand2Indirect_withR, Vm.is64Bit_withR, hd2, h32, Vm.read16_withR,
    Vm.r_withR, Vm.operand1_withR, Vm.operand2_withR, Vm.index16_withR, Vm.size16_withR, hop2, h,
    Vm.opcode_withR, Vm.setCC_withR, Vm.advance_withR, Bool.false_eq_true, if_false]
  exact ⟨rfl, by simpa [Vm.setCC, Vm.advance] using h⟩

theorem compareImmediate_congr {op1 op1' op2 : BitVec 64} (h : low op1' = low op1)
    (c : Comparison) : c.compareImmediate false op1' op2 = c.compareImmediate false op1 op2 := by
  cases c <;> simp only [Comparison.compareImmediate, h]

theorem executeCMPI_alike (h : ∀ i, low (r i) = low (vm.r i)) (h32 : vm.is64Bit = false)
    (hd1 : vm.operand1Indirect = false) {dest : Fin 8} :
    SameLower .cmpi dest (executeCMPI A vm) (executeCMPI A (vm.withR r)) := by
  refine ⟨?_, fun _ hf => by cases hf⟩
  have hlow : ∀ i, low ((vm.withR r).r i) = low (vm.r i) := h
  cases hindex : vm.cmpiIndex with
  | true =>
    simp only [executeCMPI, hd1, hindex, Vm.cmpiIndex_withR, Vm.operand1Indirect_withR,
      Vm.codeRead_withR, Vm.signalException_withR, Vm.advance_withR, Bool.not_false, Bool.and_self,
      if_true]
    exact ⟨rfl, by simpa [Vm.signalException, Vm.advance] using h⟩
  | false =>
    have hsame : ∀ (c : Comparison) (x : BitVec 64),
        c.compareImmediate false (r vm.operand1) x =
          c.compareImmediate false (vm.r vm.operand1) x :=
      fun c x => compareImmediate_congr (h vm.operand1) c
    simp only [executeCMPI, hd1, hindex, h32, Vm.cmpiIndex_withR, Vm.operand1Indirect_withR,
      Vm.is64Bit_withR, Vm.immData_withR, Vm.opcode_withR, Vm.operand1_withR, Vm.host_withR,
      Vm.ip_withR, Vm.r_withR, hsame, Vm.codeRead_withR, Vm.setCC_withR, Vm.advance_withR,
      Bool.and_false, Bool.false_eq_true, if_false]
    exact ⟨rfl, by simpa [Vm.setCC, Vm.advance] using h⟩

/-- The dispatch table has a function for every opcode that gets there. -/
theorem exists_of_execFunction {s : Bool} {opcode : Nat}
    (h : execFunction opcode = some (.dataManip s)) :
    ∃ k operation, opcode = 0x0A + k ∧ mDataManipDispatchTable[k]? = some operation := by
  have hlt : opcode < 0x32 := by
    by_contra hge
    rw [execFunction, if_neg (by omega), if_neg (by omega), if_neg (by omega)] at h
    cases h
  have hall : ∀ n < 0x32, ∀ b, execFunction n = some (.dataManip b) →
      0x0A ≤ n ∧ (mDataManipDispatchTable[n - 0x0A]?).isSome := by decide
  obtain ⟨hle, hsome⟩ := hall opcode hlt s h
  obtain ⟨operation, hoperation⟩ := Option.isSome_iff_exists.mp hsome
  exact ⟨opcode - 0x0A, operation, by omega, hoperation⟩

/-- A 32-bit instruction without an operand in memory does the same in machines that differ in
upper halves only. -/
theorem ExecFunction.run_alike (u : Unspecified) (A : Arch) {f : ExecFunction} {vm vm' : Vm}
    (hf : execFunction (vm.opcode &&& 0x3F#8).toNat = some f) (h32 : vm.is64Bit = false)
    (hd : f.Direct vm) (h : LowAlike vm vm') :
    Option.Rel (SameLower f vm.operand1) (f.run u A vm) (f.run u A vm') := by
  have hr : vm' = vm.withR vm'.r := h.rest
  rw [hr]
  cases f with
  | cmp => exact .some (executeCMP_alike h.lower h32 hd.2)
  | cmpi => exact .some (executeCMPI_alike h.lower h32 hd)
  | dataManip s =>
    obtain ⟨k, operation, hopcode, hoperation⟩ := exists_of_execFunction hf
    exact executeDataManip_alike h.lower h32 hd.1 hd.2 hopcode hoperation

/-- Upper halves do not leak into a 32-bit instruction: either both machines fault, or they have the
same condition flag and the same lower half of the destination, whose upper half is clear. -/
theorem run_ignores_upper (u : Unspecified) (A : Arch) {f : ExecFunction} {vm vm' : Vm}
    (hf : execFunction (vm.opcode &&& 0x3F#8).toNat = some f) (h32 : vm.is64Bit = false)
    (hd : f.Direct vm) (h : LowAlike vm vm') :
    (f.run u A vm = none ↔ f.run u A vm' = none) ∧
      ∀ w w', f.run u A vm = some w → f.run u A vm' = some w' →
        w'.flags = w.flags ∧ low (w'.r vm.operand1) = low (w.r vm.operand1) ∧
          ∀ s, f = .dataManip s →
            (w.r vm.operand1) >>> 32 = 0#64 ∧ (w'.r vm.operand1) >>> 32 = 0#64 := by
  have hrel := ExecFunction.run_alike u A hf h32 hd h
  generalize f.run u A vm = a at *
  generalize f.run u A vm' = b at *
  cases hrel with
  | none => simp
  | some hsame =>
    refine ⟨by simp, fun w w' hw hw' => ?_⟩
    cases hw
    cases hw'
    have hflags := congrArg Vm.flags hsame.alike.rest
    exact ⟨hflags, hsame.alike.lower _, hsame.clear⟩

/-- `ADD32 R1, R2` with something above the lower halves. -/
theorem run_ignores_upper_add :
    let memory : Memory := fun a => if a = 0 then 0x0C else if a = 1 then 0x21 else 0
    let vm : Vm := ⟨fun i => BitVec.ofNat 64 i, 0, 0, 0, 0, 0, 0, 0, ⟨⟨0, 0, 0, 0, 0⟩, memory⟩⟩
    let vm' := vm.withR fun i => BitVec.ofNat 64 i + 0xFFFF00000000#64
    let u : Unspecified := ⟨0, fun a _ => a, fun a _ => a, fun a _ => a⟩
    ∀ w w', ExecFunction.run u .efi32 vm (.dataManip true) = some w →
      ExecFunction.run u .efi32 vm' (.dataManip true) = some w' → w'.flags = w.flags := by
  intro memory vm vm' u w w' hw hw'
  have hlow : ∀ i, low (vm'.r i) = low (vm.r i) := by
    show ∀ i : Fin 8, low (BitVec.ofNat 64 i + 0xFFFF00000000#64) = low (BitVec.ofNat 64 i)
    decide
  have hopcode : execFunction (vm.opcode &&& 0x3F#8).toNat = some (.dataManip true) := by decide
  have hlower : LowAlike vm vm' := ⟨rfl, hlow⟩
  exact ((run_ignores_upper u .efi32 hopcode (by decide) ⟨by decide, by decide⟩ hlower).2
    w w' hw hw').1

end Lower

end EfiCore.Ebc
