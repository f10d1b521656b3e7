import EfiCore.Ebc.ByteAddressable
import EfiCore.Ebc.DataManip

/-! # Calls and returns

`ExecuteCALL` and `ExecuteRET`.  A call pushes the frame pointer, in the natural width, and the
address behind the instruction, in 64 bits, each into a slot of 8 bytes; a return takes them back.
A run keeps, beside the machine, the calls that have not returned.
-/

namespace EfiCore.Ebc

open EfiCore.Lib

attribute [local instance] neZero_registers

/-! ## The instructions -/

/-- Native code that `EbcLLCALLEX` calls, with its address, the stack pointer and the frame pointer:
what it returns and what it makes of memory. -/
abbrev Native := Nat → Nat → Nat → Memory → BitVec 64 × Memory

namespace Vm

/-- `OPERAND_M_RELATIVE_ADDR` -/
def relativeAddr (vm : Vm) : Bool := vm.operands.getLsbD 4

/-- `OPERAND_M_NATIVE_CALL` -/
def nativeCall (vm : Vm) : Bool := vm.operands.getLsbD 5

/-- The size of a `CALL`. -/
def callSize (vm : Vm) : Nat := if vm.immData then if vm.is64Bit then 10 else 6 else 2

/-- `STOPFLAG_APP_DONE` is set. -/
def appDone (vm : Vm) : Bool := vm.stopFlags.getLsbD 0

variable (A : Arch) (callex : Native)

/-- `(UINTN) x` -/
def uintn (x : BitVec 64) : Nat := x.toNat % 2 ^ A.bits

/-- The immediate of a `CALL` in 64 bits. -/
def callImmed64 (vm : Vm) : BitVec 64 :=
  if vm.immData && vm.is64Bit then vmReadCode64 vm.host.memory vm.ip 2 else 0

/-- The immediate in 32 bits: an index if the operand is indirect. -/
def callImmed32 (vm : Vm) : BitVec 32 :=
  if vm.immData && !vm.is64Bit then
    if vm.operand1Indirect then vmReadIndex32 A vm.host.memory vm.ip 2
    else vmReadCode32 vm.host.memory vm.ip 2
  else 0

/-- The frame pointer and the return address on the stack of the machine. -/
def pushFrame (size : Nat) (vm : Vm) : Vm :=
  let returnAddr := A.add vm.ip size
  let framePtr := vm.framePtr
  let vm := vm.setR 0 (vm.r 0 - 8#64)
  let vm := { vm with
    host := vmWriteMemN A vm.host (uintn A (vm.r 0)) framePtr
    framePtr := uintn A (vm.r 0) }
  let vm := vm.setR 0 (vm.r 0 - 8#64)
  { vm with host := vmWriteMem64 A vm.host (uintn A (vm.r 0)) returnAddr }

/-- The return address and the frame pointer from the stack of the machine. -/
def popFrame (vm : Vm) : Vm :=
  let ip := vmReadMem64 A vm.host (uintn A (vm.r 0))
  let vm := { vm with ip := ip.1 % 2 ^ A.bits, host := ip.2 }
  let vm := vm.setR 0 (vm.r 0 + 8#64)
  let framePtr := vmReadMemN A vm.host (uintn A (vm.r 0))
  let vm := { vm with framePtr := framePtr.1, host := framePtr.2 }
  vm.setR 0 (vm.r 0 + 8#64)

/-- Call native code, and go on behind the instruction. -/
def callNative (size target framePtr : Nat) (vm : Vm) : Vm :=
  let result := callex target (uintn A (vm.r 0)) framePtr vm.host.memory
  (({ vm with host := { vm.host with memory := result.2 } }).setR 7 result.1).advance A size

/-- The target of a `CALL` with a register: the address, or the offset from the next instruction. -/
def callOperand (immed32 : BitVec 32) (vm caller : Vm) : BitVec 64 × Vm :=
  let base := if caller.operand1 = 0 then 0 else BitVec.ofNat 64 (uintn A (vm.r caller.operand1))
  if caller.operand1Indirect then
    let read := vmReadMemN A vm.host (uintn A (base + immed32.signExtend 64))
    (BitVec.ofNat 64 read.1, { vm with host := read.2 })
  else (base + immed32.signExtend 64, vm)

end Vm

variable (A : Arch) (callex : Native)

/-- `ExecuteCALL` -/
def executeCALL (vm : Vm) : Vm :=
  -- opcode, operands and immediate are fetched before anything is pushed
  let caller := vm
  let size := caller.callSize
  let immed64 := caller.callImmed64
  let immed32 := caller.callImmed32 A
  let vm := if caller.immData then vm.codeRead 2 else vm
  let vm := if caller.nativeCall then vm else vm.pushFrame A size
  if caller.is64Bit then
    if caller.nativeCall then vm.callNative A callex size (Vm.uintn A immed64) caller.framePtr
    else { vm with ip := Vm.uintn A immed64 }
  else
    let (target, vm) := vm.callOperand A immed32 caller
    if caller.nativeCall then
      let target := if caller.relativeAddr then A.add vm.ip (target.toNat + size)
        else Vm.uintn A target
      vm.callNative A callex size target caller.framePtr
    else if caller.relativeAddr then { vm with ip := A.add vm.ip (target.toNat + size) }
    else { vm with ip := Vm.uintn A target }

/-- `ExecuteRET` -/
def executeRET (vm : Vm) : Vm :=
  if vm.stackRetAddr = vm.r 0 then { vm with stopFlags := vm.stopFlags ||| stopFlagAppDone }
  else
    let vm := if isAligned (Vm.uintn A (vm.r 0)) 2 then vm
      else vm.signalException .alignmentCheck .fatal
    vm.popFrame A

/-! ## Runs -/

/-- What `EbcExecute` executes. -/
inductive Event where
  | call
  | ret
  /-- Another instruction, or a check of the loop, and whether it raises a fatal exception. -/
  | other (fatal : Bool)
  deriving DecidableEq, Repr

/-- What another instruction or a check of the loop may do, with any memory and any registers. -/
structure Other (vm vm' : Vm) (fatal : Bool) : Prop where
  stack : vm.host.stack.Same vm'.host.stack
  stackRetAddr : vm'.stackRetAddr = vm.stackRetAddr
  framePtr : vm'.framePtr = vm.framePtr
  appDone : vm'.appDone = (vm.appDone || fatal)
  /-- `EXCEPTION_FLAG_FATAL` is set. -/
  raised : fatal = true → vm'.exceptionFlags.getLsbD 31 = true

/-- The opcode of the instruction. -/
def Vm.instruction (vm : Vm) : Nat := (vm.opcode &&& 0x3F#8).toNat

/-- `OPCODE_CALL` -/
def opcodeCALL : Nat := 0x03

/-- `OPCODE_RET` -/
def opcodeRET : Nat := 0x04

/-- The machine, and the machines that executed the calls that have not returned, the last first. -/
structure Config where
  vm : Vm
  pending : List Vm

/-- One step of `EbcExecute`. -/
inductive Step : Config → Event → Config → Prop
  | call (c : Config) : c.vm.instruction = opcodeCALL → c.vm.nativeCall = false →
      Step c .call ⟨executeCALL A callex c.vm, c.vm :: c.pending⟩
  | native (c : Config) : c.vm.instruction = opcodeCALL → c.vm.nativeCall = true →
      Step c .call ⟨executeCALL A callex c.vm, c.pending⟩
  | ret (c : Config) : c.vm.instruction = opcodeRET →
      Step c .ret ⟨executeRET A c.vm, c.pending.tail⟩
  | other (c : Config) (vm' : Vm) (fatal : Bool) : Other c.vm vm' fatal →
      Step c (.other fatal) ⟨vm', c.pending⟩

/-- `EbcExecute` sets the frame pointer and clears the flags. -/
def ebcExecute (vm : Vm) : Vm :=
  { vm with framePtr := A.add (Vm.uintn A (vm.r 0)) 8, stopFlags := 0 }

/-- The loop of `EbcExecute`, from a machine that was prepared; it ends when the application is
done. -/
inductive Run (vm : Vm) : Config → Prop
  | start : Run vm ⟨ebcExecute A vm, []⟩
  | step {c c' : Config} {event : Event} : Run vm c → c.vm.appDone = false →
      Step A callex c event c' → Run vm c'

/-! ## Frames -/

/-- The accesses of a call and its return, from the stack pointer of the callee on, go to the bytes
that the addresses denote, each to its own. -/
structure Stack.Frames (s : Stack) (sp : BitVec 64) : Prop where
  returnAddr : (Call.write .w64 (Vm.uintn A sp) 0).touches A s = s.denoted A (Vm.uintn A sp) 8
  returnAddrRead : (Call.read .w64 (Vm.uintn A sp)).touches A s = s.denoted A (Vm.uintn A sp) 8
  framePtr : (Call.write .natural (Vm.uintn A (sp + 8#64)) 0).touches A s =
    s.denoted A (Vm.uintn A (sp + 8#64)) A.pointerSize
  framePtrRead : (Call.read .natural (Vm.uintn A (sp + 8#64))).touches A s =
    s.denoted A (Vm.uintn A (sp + 8#64)) A.pointerSize
  distinct : (s.denoted A (Vm.uintn A sp) 16).Nodup

/-- The stack pointer that the callee is entered with. -/
def Vm.calleeStack (caller : Vm) : BitVec 64 := caller.r 0 - 16#64

/-- The bytes of the 16 addresses above the stack pointer of the callee. -/
def Vm.frame (caller : Vm) : List Addr :=
  caller.host.stack.denoted A (Vm.uintn A caller.calleeStack) 16

/-- When the callee executes `RET`, its stack pointer is back and its frame has not been written. -/
structure Balanced (caller vm : Vm) : Prop where
  stackPointer : vm.r 0 = caller.calleeStack
  frame : ∀ a ∈ caller.frame A, vm.host.memory a = (executeCALL A callex caller).host.memory a

/-- The machine is behind the `CALL` that `caller` executed. -/
structure Resumed (caller vm : Vm) : Prop where
  ip : vm.ip = A.add caller.ip caller.callSize
  stackPointer : vm.r 0 = caller.r 0
  framePtr : vm.framePtr = caller.framePtr

variable {A : Arch} {callex : Native} {vm vm' caller : Vm} {s s' : Stack}

/-! ## Slots -/

theorem hostRange_add {addr : Nat} (h : addr < 2 ^ A.bits) (m n : Nat) :
    hostRange A addr (m + n) = hostRange A addr m ++ hostRange A (A.add addr m) n := by
  induction m generalizing addr with
  | zero => rw [Nat.zero_add, Arch.add, Nat.add_zero, Nat.mod_eq_of_lt h]; rfl
  | succ m ih =>
    have hnext : A.add (A.add addr 1) m = A.add addr (m + 1) := by
      rw [Arch.add, Arch.add, Arch.add, Nat.mod_add_mod, Nat.add_assoc, Nat.add_comm 1]
    have hlt : A.add addr 1 < 2 ^ A.bits := Nat.mod_lt _ (Nat.two_pow_pos _)
    rw [Nat.add_right_comm, hostRange, ih hlt, hnext, hostRange, List.cons_append]

theorem Vm.uintn_lt (x : BitVec 64) : Vm.uintn A x < 2 ^ A.bits :=
  Nat.mod_lt _ (Nat.two_pow_pos _)

theorem Vm.uintn_add_eight (x : BitVec 64) : Vm.uintn A (x + 8#64) = A.add (Vm.uintn A x) 8 := by
  rw [Vm.uintn, Vm.uintn, Arch.add, BitVec.toNat_add, Nat.mod_add_mod]
  have hdvd : 2 ^ A.bits ∣ 2 ^ 64 := by cases A <;> decide
  exact Nat.mod_mod_of_dvd _ hdvd

theorem pow_pointerSize (A : Arch) : 256 ^ A.pointerSize = 2 ^ A.bits := by cases A <;> decide

/-- The bytes of a frame that are used: the return address, and behind its slot the frame
pointer. -/
theorem Stack.denoted_slots (s : Stack) (sp : BitVec 64) :
    (s.denoted A (Vm.uintn A sp) 8 ++
      s.denoted A (Vm.uintn A (sp + 8#64)) A.pointerSize).Sublist
        (s.denoted A (Vm.uintn A sp) 16) := by
  have hsecond := hostRange_add (Vm.uintn_lt (A := A) (sp + 8#64)) A.pointerSize
    (8 - A.pointerSize)
  have height : A.pointerSize + (8 - A.pointerSize) = 8 := by cases A <;> rfl
  rw [height] at hsecond
  rw [Stack.denoted, Stack.denoted, Stack.denoted, hostRange_add (Vm.uintn_lt sp) 8 8,
    ← Vm.uintn_add_eight, hsecond, ← List.map_append, ← List.append_assoc]
  exact (List.sublist_append_left _ _).map _

/-! ## What the instructions change -/

section Effects

variable {size : Nat}

theorem Vm.codeRead_eq (offset : Nat) (vm : Vm) : ∃ lastException exceptionFlags,
    vm.codeRead offset =
      { vm with lastException := lastException, exceptionFlags := exceptionFlags } := by
  rw [Vm.codeRead]
  split
  · exact ⟨vm.lastException, vm.exceptionFlags, rfl⟩
  · exact ⟨_, _, rfl⟩

/-- What an instruction leaves alone that does not end the application. -/
structure Undisturbed (vm vm' : Vm) : Prop where
  stackRetAddr : vm'.stackRetAddr = vm.stackRetAddr
  stopFlags : vm'.stopFlags = vm.stopFlags
  framePtr : vm'.framePtr = vm.framePtr
  stack : vm.host.stack.Same vm'.host.stack

namespace Undisturbed

variable {vm'' : Vm}

theorem refl (vm : Vm) : Undisturbed vm vm := ⟨rfl, rfl, rfl, .refl _⟩

theorem trans (h : Undisturbed vm vm') (h' : Undisturbed vm' vm'') : Undisturbed vm vm'' :=
  ⟨h'.stackRetAddr.trans h.stackRetAddr, h'.stopFlags.trans h.stopFlags,
    h'.framePtr.trans h.framePtr, h.stack.trans h'.stack⟩

theorem signalException (h : Undisturbed vm vm') (e : Exception) {severity : Severity}
    (hsev : severity ≠ .fatal) : Undisturbed vm (vm'.signalException e severity) :=
  ⟨h.stackRetAddr, (if_neg hsev).trans h.stopFlags, h.framePtr, h.stack⟩

theorem codeRead (h : Undisturbed vm vm') (offset : Nat) :
    Undisturbed vm (vm'.codeRead offset) := by
  rw [Vm.codeRead]
  split
  · exact h
  · exact h.signalException _ (by decide)

theorem read16 (vm : Vm) : Undisturbed vm vm.read16 := by
  rw [Vm.read16]
  split
  · exact .codeRead (.refl vm) 2
  · exact .refl vm

theorem setR (h : Undisturbed vm vm') (i : Fin 8) (x : BitVec 64) : Undisturbed vm (vm'.setR i x) :=
  ⟨h.stackRetAddr, h.stopFlags, h.framePtr, h.stack⟩

theorem advance (h : Undisturbed vm vm') (size : Nat) : Undisturbed vm (vm'.advance A size) :=
  ⟨h.stackRetAddr, h.stopFlags, h.framePtr, h.stack⟩

theorem setCC (h : Undisturbed vm vm') (flag : Bool) : Undisturbed vm (vm'.setCC flag) :=
  ⟨h.stackRetAddr, h.stopFlags, h.framePtr, h.stack⟩

theorem load (h : Undisturbed vm vm') (addr : BitVec 64) : Undisturbed vm (vm'.load A addr).2 := by
  refine ⟨h.stackRetAddr, h.stopFlags, h.framePtr, h.stack.trans ?_⟩
  simp only [Vm.load]
  split
  · exact (vmReadMem64_got _ _).stack
  · exact (vmReadMem32_got _ _).stack

theorem store (h : Undisturbed vm vm') (addr data : BitVec 64) :
    Undisturbed vm (vm'.store A addr data) := by
  rw [Vm.store]
  split
  · exact ⟨h.stackRetAddr, h.stopFlags, h.framePtr,
      h.stack.trans (vmWriteMem64_wrote _ _ _).stack⟩
  · exact ⟨h.stackRetAddr, h.stopFlags, h.framePtr,
      h.stack.trans (vmWriteMem32_wrote _ _ _).stack⟩

theorem operand (h : Undisturbed vm vm') (isSignedOp indirect : Bool) (addr : BitVec 64) :
    Undisturbed vm (vm'.operand A isSignedOp indirect addr).2 := by
  rw [Vm.operand]
  dsimp only
  split
  · exact h.load addr
  · exact h

theorem writeBack (h : Undisturbed vm vm') (x : BitVec 64) :
    Undisturbed vm (vm'.writeBack A x) := by
  rw [Vm.writeBack]
  split
  · exact h.store _ x
  · exact h.setR _ _

end Undisturbed

theorem executeCMP_undisturbed (vm : Vm) : Undisturbed vm (executeCMP A vm) := by
  simp only [executeCMP]
  split
  · exact ((Undisturbed.load (.read16 vm) _).setCC _).advance _
  · exact (Undisturbed.setCC (.read16 vm) _).advance _

theorem executeCMPI_undisturbed (vm : Vm) : Undisturbed vm (executeCMPI A vm) := by
  have hfetched : Undisturbed vm (if vm.cmpiIndex then vm.codeRead 2 else vm) := by
    split
    · exact .codeRead (.refl vm) 2
    · exact .refl vm
  simp only [executeCMPI]
  split
  · exact (hfetched.signalException _ (by decide)).advance _
  · apply Undisturbed.advance
    apply Undisturbed.setCC
    apply Undisturbed.codeRead
    split
    · exact hfetched.load _
    · exact hfetched

/-- What a callee is entered with. -/
structure Entered (A : Arch) (caller vm : Vm) : Prop where
  stackPointer : vm.r 0 = caller.calleeStack
  stackRetAddr : vm.stackRetAddr = caller.stackRetAddr
  stopFlags : vm.stopFlags = caller.stopFlags
  framePtr : vm.framePtr < 2 ^ A.bits
  stack : caller.host.stack.Same vm.host.stack
  memory : vm.host.memory =
    (caller.host.memory.writeAt
      ((Call.write .natural (Vm.uintn A (caller.calleeStack + 8#64)) 0).touches A caller.host.stack)
      (leBytes A.pointerSize caller.framePtr)).writeAt
      ((Call.write .w64 (Vm.uintn A caller.calleeStack) 0).touches A caller.host.stack)
      (leBytes 8 (A.add caller.ip caller.callSize))

@[simp] theorem Vm.setR_self (vm : Vm) (i : Fin 8) (x : BitVec 64) : (vm.setR i x).r i = x :=
  Function.update_self _ _ _

@[simp] theorem Vm.setR_host (vm : Vm) (i : Fin 8) (x : BitVec 64) : (vm.setR i x).host = vm.host :=
  rfl

@[simp] theorem Vm.setR_framePtr (vm : Vm) (i : Fin 8) (x : BitVec 64) :
    (vm.setR i x).framePtr = vm.framePtr := rfl

theorem Entered.pushFrame (caller : Vm) :
    Entered A caller (caller.pushFrame A caller.callSize) := by
  have hslot : caller.r 0 - 8#64 = caller.calleeStack + 8#64 := by
    rw [Vm.calleeStack]
    bv_omega
  have hcallee : caller.calleeStack + 8#64 - 8#64 = caller.calleeStack := by bv_omega
  have hfirst := vmWriteMemN_wrote (A := A) caller.host
    (Vm.uintn A (caller.calleeStack + 8#64)) caller.framePtr
  have hsecond := vmWriteMem64_wrote (A := A)
    (vmWriteMemN A caller.host (Vm.uintn A (caller.calleeStack + 8#64)) caller.framePtr)
    (Vm.uintn A caller.calleeStack) (A.add caller.ip caller.callSize)
  have hsame := hfirst.stack.trans hsecond.stack
  have htouches := hfirst.stack.writeAddrs64 (A := A) (Vm.uintn A caller.calleeStack)
  simp only [Vm.pushFrame, Vm.setR_self, Vm.setR_host, hslot, hcallee]
  exact {
    stackPointer := by simp [Vm.setR]
    stackRetAddr := rfl
    stopFlags := rfl
    framePtr := Vm.uintn_lt _
    stack := hsame
    memory := by
      show Host.memory _ = _
      rw [hsecond.memory, hfirst.memory, htouches]
      rfl }

/-- The rest of the instruction changes nothing of it. -/
theorem Entered.congr (h : Entered A caller vm) (hr : vm'.r = vm.r)
    (hret : vm'.stackRetAddr = vm.stackRetAddr) (hstop : vm'.stopFlags = vm.stopFlags)
    (hframe : vm'.framePtr = vm.framePtr) (hstack : vm.host.stack.Same vm'.host.stack)
    (hmemory : vm'.host.memory = vm.host.memory) : Entered A caller vm' where
  stackPointer := by rw [hr, h.stackPointer]
  stackRetAddr := by rw [hret, h.stackRetAddr]
  stopFlags := by rw [hstop, h.stopFlags]
  framePtr := by rw [hframe]; exact h.framePtr
  stack := h.stack.trans hstack
  memory := by rw [hmemory, h.memory]

theorem Entered.ip (h : Entered A caller vm) (ip : Nat) : Entered A caller { vm with ip := ip } :=
  h.congr rfl rfl rfl rfl (.refl _) rfl

theorem Entered.callOperand (h : Entered A caller vm) (immed32 : BitVec 32) :
    Entered A caller (vm.callOperand A immed32 caller).2 := by
  rw [Vm.callOperand]
  split
  · have hgot := vmReadMemN_got (A := A) vm.host
      (Vm.uintn A ((if caller.operand1 = 0 then 0
        else BitVec.ofNat 64 (Vm.uintn A (vm.r caller.operand1))) + immed32.signExtend 64))
    exact h.congr rfl rfl rfl rfl hgot.stack hgot.memory
  · exact h

/-- A `CALL` that is not native pushes the frame. -/
theorem executeCALL_entered (caller : Vm) (hnative : caller.nativeCall = false) :
    Entered A caller (executeCALL A callex caller) := by
  have hpushed : Entered A caller
      ((if caller.immData then caller.codeRead 2 else caller).pushFrame A caller.callSize) := by
    have hpushed := Entered.pushFrame (A := A) caller
    split
    · obtain ⟨lastException, exceptionFlags, hread⟩ := Vm.codeRead_eq 2 caller
      rw [hread]
      exact hpushed.congr rfl rfl rfl rfl (.refl _) rfl
    · exact hpushed
  simp only [executeCALL, hnative, Bool.false_eq_true, if_false]
  split
  · exact hpushed.ip _
  · split
    · exact (hpushed.callOperand _).ip _
    · exact (hpushed.callOperand _).ip _

theorem Undisturbed.callNative {target framePtr : Nat} (h : Undisturbed caller vm) :
    Undisturbed caller (vm.callNative A callex size target framePtr) :=
  ⟨h.stackRetAddr, h.stopFlags, h.framePtr, h.stack⟩

theorem Undisturbed.callOperand (h : Undisturbed caller vm) (immed32 : BitVec 32) :
    Undisturbed caller (vm.callOperand A immed32 caller).2 := by
  rw [Vm.callOperand]
  split
  · exact ⟨h.stackRetAddr, h.stopFlags, h.framePtr, h.stack.trans (vmReadMemN_got _ _).stack⟩
  · exact h

theorem executeCALL_undisturbed (caller : Vm) (hnative : caller.nativeCall = true) :
    Undisturbed caller (executeCALL A callex caller) := by
  have hread : Undisturbed caller (if caller.immData then caller.codeRead 2 else caller) := by
    split
    · exact .codeRead (.refl caller) 2
    · exact .refl caller
  simp only [executeCALL, hnative, if_true]
  split
  · exact hread.callNative
  · exact (hread.callOperand _).callNative

theorem executeCALL_stopFlags (caller : Vm) :
    (executeCALL A callex caller).stopFlags = caller.stopFlags := by
  cases hnative : caller.nativeCall with
  | false => exact (executeCALL_entered caller hnative).stopFlags
  | true => exact (executeCALL_undisturbed caller hnative).stopFlags

end Effects

/-- What `RET` takes from the stack when it is not the last. -/
structure Returned (A : Arch) (vm vm' : Vm) : Prop where
  ip : vm'.ip = leNat (((Call.read .w64 (Vm.uintn A (vm.r 0))).touches A vm.host.stack).map
    vm.host.memory) % 2 ^ A.bits
  stackPointer : vm'.r 0 = vm.r 0 + 16#64
  framePtr : vm'.framePtr = leNat (((Call.read .natural (Vm.uintn A (vm.r 0 + 8#64))).touches A
    vm.host.stack).map vm.host.memory)
  bound : vm'.framePtr < 2 ^ A.bits
  stack : vm.host.stack.Same vm'.host.stack

theorem Returned.popFrame (vm : Vm) : Returned A vm (vm.popFrame A) := by
  have hip := vmReadMem64_got (A := A) vm.host (Vm.uintn A (vm.r 0))
  have hframe := vmReadMemN_got (A := A) (vmReadMem64 A vm.host (Vm.uintn A (vm.r 0))).2
    (Vm.uintn A (vm.r 0 + 8#64))
  have htouches : Width.natural.readAddrs A (vmReadMem64 A vm.host (Vm.uintn A (vm.r 0))).2.stack
      (Vm.uintn A (vm.r 0 + 8#64)) =
      Width.natural.readAddrs A vm.host.stack (Vm.uintn A (vm.r 0 + 8#64)) := by
    rw [Width.readAddrs, Width.readAddrs, hip.stack.convert]
  simp only [Vm.popFrame, Vm.setR_self, Vm.setR_host]
  exact {
    ip := congrArg (· % 2 ^ A.bits) hip.value
    stackPointer := by
      simp only [Vm.setR, Function.update_self]
      bv_omega
    framePtr := by
      show Prod.fst _ = _
      rw [hframe.value, hip.memory, htouches]
      rfl
    bound := by
      rw [← pow_pointerSize]
      exact hframe.lt
    stack := hip.stack.trans hframe.stack }

theorem executeRET_returned (h : vm.r 0 ≠ vm.stackRetAddr) : Returned A vm (executeRET A vm) := by
  rw [executeRET, if_neg (Ne.symm h)]
  split
  · exact .popFrame vm
  · have hpop := Returned.popFrame (A := A) (vm.signalException .alignmentCheck .fatal)
    exact ⟨hpop.ip, hpop.stackPointer, hpop.framePtr, hpop.bound, hpop.stack⟩

theorem stopFlags_appDone (x : BitVec 32) : (x ||| stopFlagAppDone).getLsbD 0 = true := by
  rw [BitVec.getLsbD_or]
  exact Bool.or_true _

/-- `RET` ends the application at the bottom of the stack, and through the exception for an odd
stack pointer. -/
theorem executeRET_appDone (vm : Vm) (h : vm.appDone = false) :
    (executeRET A vm).appDone = true ↔ vm.r 0 = vm.stackRetAddr ∨ (vm.r 0).toNat % 2 = 1 := by
  have halign : isAligned (Vm.uintn A (vm.r 0)) 2 = decide ((vm.r 0).toNat % 2 = 0) := by
    have hmod : Vm.uintn A (vm.r 0) % 2 ^ 32 % 2 = (vm.r 0).toNat % 2 := by
      rw [Vm.uintn]
      cases A
      · exact (Nat.mod_mod_of_dvd _ (by decide)).trans ((Nat.mod_mod_of_dvd _ (by decide)))
      · exact (Nat.mod_mod_of_dvd _ (by decide)).trans ((Nat.mod_mod_of_dvd _ (by decide)))
    rw [isAligned, Nat.and_one_is_mod, hmod]
  rw [executeRET]
  split
  case isTrue hbottom =>
    have hdone : Vm.appDone { vm with stopFlags := vm.stopFlags ||| stopFlagAppDone } = true :=
      stopFlags_appDone _
    exact iff_of_true hdone (.inl hbottom.symm)
  case isFalse hbottom =>
    rw [halign]
    split
    case isTrue heven =>
      have heven := of_decide_eq_true heven
      have hdone : (vm.popFrame A).appDone = false := h
      simp [hdone, Ne.symm hbottom, heven]
    case isFalse hodd =>
      have hdone : ((vm.signalException .alignmentCheck .fatal).popFrame A).appDone = true :=
        stopFlags_appDone _
      have hodd : (vm.r 0).toNat % 2 = 1 := by simpa using hodd
      simp [hdone, hodd]

/-! ## A call and its return -/

theorem Stack.Same.touches (h : s.Same s') (width : Width) (addr : Nat) :
    (Call.read width addr).touches A s' = (Call.read width addr).touches A s := by
  cases width
  case w8 => simp only [Call.touches, Width.readAddrs, h.convert]
  case w16 => exact readAddrs16_same h addr
  case w32 => exact readAddrs32_same h addr
  case w64 => simp only [Call.touches, Width.readAddrs, h.convert, readAddrs32_same h]
  case natural => simp only [Call.touches, Width.readAddrs, h.convert]

/-- What was pushed is taken back. -/
theorem resumed (hnative : caller.nativeCall = false) (hframe : caller.framePtr < 2 ^ A.bits)
    (hframes : caller.host.stack.Frames A caller.calleeStack)
    (hsame : caller.host.stack.Same vm.host.stack) (hbalanced : Balanced A callex caller vm)
    (hbottom : vm.r 0 ≠ vm.stackRetAddr) : Resumed A caller (executeRET A vm) := by
  have hentered : Entered A caller (executeCALL A callex caller) :=
    executeCALL_entered caller hnative
  have hreturned := executeRET_returned (A := A) hbottom
  have hslots := Stack.denoted_slots (A := A) caller.host.stack caller.calleeStack
  obtain ⟨hnodup, hnodup', hdisjoint⟩ := List.nodup_append.mp (hframes.distinct.sublist hslots)
  have hlen : ∀ addr n, (caller.host.stack.denoted A addr n).length = n := fun addr n => by
    rw [Stack.denoted, List.length_map, length_hostRange]
  -- the frame is as the call left it
  have hkept : ∀ addrs : List Addr, addrs ⊆ caller.frame A →
      addrs.map vm.host.memory = addrs.map (executeCALL A callex caller).host.memory := by
    intro addrs hsub
    exact List.map_congr_left fun a ha => hbalanced.frame a (hsub ha)
  have hreturnAddr : (caller.host.stack.denoted A (Vm.uintn A caller.calleeStack) 8).map
      vm.host.memory = leBytes 8 (A.add caller.ip caller.callSize) := by
    rw [hkept _ fun a ha => hslots.subset (List.mem_append_left _ ha), hentered.memory,
      hframes.returnAddr]
    exact Memory.map_writeAt _ hnodup (by rw [hlen, length_leBytes])
  have hframePtr : (caller.host.stack.denoted A (Vm.uintn A (caller.calleeStack + 8#64))
      A.pointerSize).map vm.host.memory = leBytes A.pointerSize caller.framePtr := by
    rw [hkept _ fun a ha => hslots.subset (List.mem_append_right _ ha), hentered.memory,
      hframes.returnAddr, hframes.framePtr]
    -- the slot of the return address is another
    rw [List.map_congr_left fun a ha => Memory.writeAt_of_notMem _ _ fun ha' =>
      hdisjoint a ha' a ha rfl]
    exact Memory.map_writeAt _ hnodup' (by rw [hlen, length_leBytes])
  have hbound : 2 ^ A.bits ≤ 256 ^ 8 := by cases A <;> decide
  have hnext : A.add caller.ip caller.callSize < 2 ^ A.bits := Nat.mod_lt _ (Nat.two_pow_pos _)
  constructor
  case ip =>
    rw [hreturned.ip, hbalanced.stackPointer, hsame.touches, hframes.returnAddrRead, hreturnAddr,
      leNat_leBytes, Nat.mod_eq_of_lt (lt_of_lt_of_le hnext hbound), Nat.mod_eq_of_lt hnext]
  case stackPointer =>
    rw [hreturned.stackPointer, hbalanced.stackPointer, Vm.calleeStack]
    bv_omega
  case framePtr =>
    rw [hreturned.framePtr, hbalanced.stackPointer, hsame.touches, hframes.framePtrRead, hframePtr,
      leNat_leBytes, pow_pointerSize, Nat.mod_eq_of_lt hframe]

/-! ## Runs keep what a return needs -/

/-- Addresses are translated as when the pending calls were executed. -/
structure Config.Sound (A : Arch) (c : Config) : Prop where
  framePtr : c.vm.framePtr < 2 ^ A.bits
  pending : ∀ caller ∈ c.pending, caller.nativeCall = false ∧ caller.framePtr < 2 ^ A.bits ∧
    caller.host.stack.Same c.vm.host.stack

/-- A step that keeps the translation and leaves some of the calls. -/
theorem Config.Sound.keep {c : Config} {pending : List Vm} (h : c.Sound A)
    (hframe : vm.framePtr < 2 ^ A.bits) (hstack : c.vm.host.stack.Same vm.host.stack)
    (hsub : pending ⊆ c.pending) : Config.Sound A ⟨vm, pending⟩ where
  framePtr := hframe
  pending := fun caller hmem => by
    obtain ⟨hnative, hbound, hsame⟩ := h.pending caller (hsub hmem)
    exact ⟨hnative, hbound, hsame.trans hstack⟩

theorem Step.sound {c c' : Config} {event : Event} (hstep : Step A callex c event c')
    (h : c.Sound A) : c'.Sound A := by
  cases hstep with
  | call _ hnative =>
    have hentered : Entered A c.vm (executeCALL A callex c.vm) := executeCALL_entered c.vm hnative
    have hrest := h.keep hentered.framePtr hentered.stack (List.Subset.refl _)
    exact ⟨hentered.framePtr, List.forall_mem_cons.mpr
      ⟨⟨hnative, h.framePtr, hentered.stack⟩, hrest.pending⟩⟩
  | native _ hnative =>
    have hundisturbed : Undisturbed c.vm (executeCALL A callex c.vm) :=
      executeCALL_undisturbed c.vm hnative
    exact h.keep (by rw [hundisturbed.framePtr]; exact h.framePtr) hundisturbed.stack
      (List.Subset.refl _)
  | ret _ =>
    by_cases hbottom : c.vm.r 0 = c.vm.stackRetAddr
    · rw [executeRET, if_pos hbottom.symm]
      exact h.keep h.framePtr (.refl _) (List.tail_subset _)
    · have hreturned := executeRET_returned (A := A) hbottom
      exact h.keep hreturned.bound hreturned.stack (List.tail_subset _)
  | other vm' fatal hother =>
    exact h.keep (by rw [hother.framePtr]; exact h.framePtr) hother.stack (List.Subset.refl _)

theorem Run.sound {c : Config} (hrun : Run A callex vm c) : c.Sound A := by
  induction hrun with
  | start => exact ⟨Nat.mod_lt _ (Nat.two_pow_pos _), fun _ h => nomatch h⟩
  | step _ _ hstep ih => exact hstep.sound ih

/-- What the step of an event sets `STOPFLAG_APP_DONE` for. -/
def Event.Ends (vm : Vm) : Event → Prop
  | .call => False
  | .ret => vm.r 0 = vm.stackRetAddr ∨ (vm.r 0).toNat % 2 = 1
  | .other fatal => fatal = true

theorem Step.appDone {c c' : Config} {event : Event} (hstep : Step A callex c event c')
    (h : c.vm.appDone = false) : c'.vm.appDone = true ↔ event.Ends c.vm := by
  have hcall : (executeCALL A callex c.vm).appDone = false := by
    rw [Vm.appDone, executeCALL_stopFlags]
    exact h
  cases hstep with
  | call => simp [Event.Ends, hcall]
  | native => simp [Event.Ends, hcall]
  | ret => exact executeRET_appDone c.vm h
  | other vm' fatal hother => simp [Event.Ends, hother.appDone, h]

/-! ## Other instructions -/

theorem Other.of_undisturbed (h : Undisturbed vm vm') : Other vm vm' false where
  stack := h.stack
  stackRetAddr := h.stackRetAddr
  framePtr := h.framePtr
  appDone := by rw [Bool.or_false, Vm.appDone, Vm.appDone, h.stopFlags]
  raised := fun hf => nomatch hf

theorem Vm.writeBack_exceptionFlags (vm : Vm) (x : BitVec 64) :
    (vm.writeBack A x).exceptionFlags = vm.exceptionFlags := by
  simp only [Vm.writeBack, Vm.store]
  split
  · split <;> rfl
  · rfl

/-- An exception that is fatal sets both flags. -/
theorem Other.of_fatal (h : Undisturbed vm vm') (e : Exception) (x : BitVec 64) (size : Nat) :
    Other vm (((vm'.signalException e .fatal).writeBack A x).advance A size) true := by
  have hwritten := ((Undisturbed.refl (vm'.signalException e .fatal)).writeBack (A := A) x).advance
    (A := A) size
  exact {
    stack := h.stack.trans hwritten.stack
    stackRetAddr := hwritten.stackRetAddr.trans h.stackRetAddr
    framePtr := hwritten.framePtr.trans h.framePtr
    appDone := by
      rw [Bool.or_true, Vm.appDone, hwritten.stopFlags]
      exact stopFlags_appDone _
    raised := fun _ => by
      show (Vm.writeBack A (vm'.signalException e .fatal) x).exceptionFlags.getLsbD 31 = true
      rw [Vm.writeBack_exceptionFlags]
      show (vm'.exceptionFlags ||| Severity.fatal.flag).getLsbD 31 = true
      rw [BitVec.getLsbD_or]
      exact Bool.or_true _ }

/-- The instructions for data manipulation and comparison are such. -/
theorem ExecFunction.run_other (u : Unspecified) (f : ExecFunction) (h : f.run u A vm = some vm') :
    ∃ fatal, Other vm vm' fatal := by
  cases f with
  | cmp =>
    cases h
    exact ⟨false, .of_undisturbed (executeCMP_undisturbed vm)⟩
  | cmpi =>
    cases h
    exact ⟨false, .of_undisturbed (executeCMPI_undisturbed vm)⟩
  | dataManip isSignedOp =>
    replace h : executeDataManip u A isSignedOp vm = some vm' := h
    have hop2 := (Undisturbed.read16 vm).operand (A := A) isSignedOp vm.operand2Indirect
      (vm.r vm.operand2 + (vm.index16 A).signExtend 64)
    have hop1 := hop2.operand (A := A) isSignedOp vm.operand1Indirect (vm.r vm.operand1)
    have herror : Severity.error ≠ .fatal := by decide
    have hinvalid := (hop1.signalException .invalidOpcode herror).advance (A := A) vm.size16
    simp only [executeDataManip] at h
    split at h
    · exact ⟨false, .of_undisturbed (Option.some.inj h ▸ hinvalid)⟩
    · split at h
      · split at h
        · exact ⟨false, .of_undisturbed (Option.some.inj h ▸ (hop1.writeBack _).advance _)⟩
        · exact ⟨true, Option.some.inj h ▸ .of_fatal hop1 .divideError 0 _⟩
        · cases h
      · exact ⟨false, .of_undisturbed (Option.some.inj h ▸ hinvalid)⟩

/-! ## A program -/

/-- Code at 0x100: `ADD64 R0, R1` with the immediate `n`, then at 0x104 a relative `CALL32` over 2
bytes, and the callee at 0x10c, which is `RET`. -/
def nested (n : BitVec 16) : Memory := fun a =>
  if a < 0x100 then 0
  else ([0xCC, 0x10, n.setWidth 8, (n >>> 8).setWidth 8, 0x83, 0x10, 2, 0, 0, 0, 0, 0, 0x04,
    0][a - 0x100]?).getD 0

/-- The machine at the entry of the program. -/
def nestedVm (n : BitVec 16) : Vm where
  r := fun i => if i = 0 then 0x2000 else 0
  flags := 0
  ip := 0x100
  lastException := 0
  exceptionFlags := 0
  stopFlags := 0
  stackRetAddr := 0x2000
  framePtr := 0
  host := ⟨⟨0x4000, 0x2000, 0x3000, 0, 0⟩, nested n⟩

/-- Native code that does nothing. -/
def noNative : Native := fun _ _ _ m => (0, m)

/-- The machine that executes the `CALL`. -/
def nestedCaller (n : BitVec 16) : Vm :=
  (executeDataManip ⟨0, fun a _ => a, fun a _ => a, fun a _ => a⟩ .efi64 true
    (ebcExecute .efi64 (nestedVm n))).getD (nestedVm n)

/-- The machine that executes the `RET`, with the call pending. -/
def nestedCallee (n : BitVec 16) : Config :=
  ⟨executeCALL .efi64 noNative (nestedCaller n), [nestedCaller n]⟩

theorem nestedCallee_run (n : BitVec 16) (hadd : (executeDataManip
      ⟨0, fun a _ => a, fun a _ => a, fun a _ => a⟩ .efi64 true
      (ebcExecute .efi64 (nestedVm n))).isSome = true)
    (hdone : (nestedCaller n).appDone = false)
    (hcall : (nestedCaller n).instruction = opcodeCALL)
    (hnative : (nestedCaller n).nativeCall = false) :
    Run .efi64 noNative (nestedVm n) (nestedCallee n) := by
  have hsome : ExecFunction.run ⟨0, fun a _ => a, fun a _ => a, fun a _ => a⟩ .efi64
      (ebcExecute .efi64 (nestedVm n)) (.dataManip true) = some (nestedCaller n) := by
    obtain ⟨vm, hvm⟩ := Option.isSome_iff_exists.mp hadd
    rw [nestedCaller, hvm]
    exact hvm
  obtain ⟨fatal, hother⟩ := ExecFunction.run_other _ _ hsome
  have hstart : (ebcExecute .efi64 (nestedVm n)).appDone = false := by
    simp [Vm.appDone, ebcExecute]
  have hadded : Run .efi64 noNative (nestedVm n) ⟨nestedCaller n, []⟩ :=
    .step .start hstart (.other _ _ fatal hother)
  exact .step hadded hdone (.call _ hcall hnative)

/-- In every run, calls nest, and the application is done at the bottom of its stack or after an
exception that is fatal. -/
theorem calls_nest {c : Config} (hrun : Run A callex vm c) :
    (∀ caller ∈ c.pending.head?, caller.host.stack.Frames A caller.calleeStack →
      Balanced A callex caller c.vm → c.vm.r 0 ≠ c.vm.stackRetAddr →
        Resumed A caller (executeRET A c.vm)) ∧
    ∀ event c', c.vm.appDone = false → Step A callex c event c' →
      (c'.vm.appDone = true ↔ event.Ends c.vm) := by
  constructor
  · intro caller hcaller hframes hbalanced hbottom
    obtain ⟨hnative, hframe, hsame⟩ := hrun.sound.pending caller (List.mem_of_mem_head? hcaller)
    exact resumed hnative hframe hframes hsame hbalanced hbottom
  · intro event c' hdone hstep
    exact hstep.appDone hdone


/-- `CALL` with the stack pointer as at the entry, and the `RET` of its callee. -/
theorem calls_nest_nested :
    Resumed .efi64 (nestedCaller 0) (executeRET .efi64 (nestedCallee 0).vm) := by
  have hrun := nestedCallee_run 0 (by decide +kernel) (by decide +kernel) (by decide +kernel)
    (by decide +kernel)
  refine (calls_nest hrun).1 (nestedCaller 0) rfl ?_ ⟨?_, fun _ _ => rfl⟩ ?_
  · exact ⟨by decide +kernel, by decide +kernel, by decide +kernel, by decide +kernel,
      by decide +kernel⟩
  · decide +kernel
  · decide +kernel

/-- Every callee that is balanced resumes its caller. -/
def ReturnsResume : Prop :=
  ∀ (A : Arch) (callex : Native) (vm : Vm) (c : Config), Run A callex vm c →
    ∀ caller ∈ c.pending.head?, caller.host.stack.Frames A caller.calleeStack →
      Balanced A callex caller c.vm → c.vm.instruction = opcodeRET →
        Resumed A caller (executeRET A c.vm)

/-- The application is done exactly at the bottom of its stack. -/
def DoneAtBottom : Prop :=
  ∀ (A : Arch) (callex : Native) (vm : Vm) (c c' : Config) (event : Event), Run A callex vm c →
    c.vm.appDone = false → Step A callex c event c' →
      (c'.vm.appDone = true ↔ event = .ret ∧ c.vm.r 0 = c.vm.stackRetAddr)

/-- A frame that ends up at the bottom of the stack ends the application, and so does a stack
pointer that is odd. -/
theorem not_returnsResume : ¬ReturnsResume ∧ ¬DoneAtBottom := by
  constructor
  · intro hall
    have hrun := nestedCallee_run 16 (by decide +kernel) (by decide +kernel) (by decide +kernel)
      (by decide +kernel)
    have hresumed := hall .efi64 noNative (nestedVm 16) _ hrun (nestedCaller 16) rfl
      ⟨by decide +kernel, by decide +kernel, by decide +kernel, by decide +kernel,
        by decide +kernel⟩ ⟨by decide +kernel, fun _ _ => rfl⟩ (by decide +kernel)
    exact absurd hresumed.ip (by decide +kernel)
  · intro hall
    have hrun := nestedCallee_run (-15) (by decide +kernel) (by decide +kernel) (by decide +kernel)
      (by decide +kernel)
    have hdone := hall .efi64 noNative (nestedVm (-15)) _ _ _ hrun (by decide +kernel)
      (.ret _ (by decide +kernel))
    exact absurd (hdone.mp (by decide +kernel)).2 (by decide +kernel)

end EfiCore.Ebc
