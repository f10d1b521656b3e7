import EfiCore.Ebc.Memory

/-! # Bytes accessed

Each routine is shown to access a list of bytes of the host, in order: `Call.touches` is that list,
and `Call.perform_eq` says that a call does nothing else.
-/

namespace EfiCore.Ebc

open EfiCore.Lib

/-- The two agree on the translation of addresses. -/
structure Stack.Same (s s' : Stack) : Prop where
  vmPtr : s'.vmPtr = s.vmPtr
  lowStackTop : s'.lowStackTop = s.lowStackTop
  highStackBottom : s'.highStackBottom = s.highStackBottom

/-! ## The bytes of the host that are accessed -/

section Addresses

variable (A : Arch) (s : Stack)

def writeAddrs8 (addr : Nat) : List Addr := hostRange A (s.convert A addr) 1

def writeAddrs16 (addr : Nat) : List Addr :=
  let addr := s.convert A addr
  if isAligned addr 2 then hostRange A addr 2
  else writeAddrs8 A s addr ++ writeAddrs8 A s (A.add addr 1)

def writeAddrs32 (addr : Nat) : List Addr :=
  let addr := s.convert A addr
  if isAligned addr 4 then hostRange A addr 4
  else writeAddrs16 A s addr ++ writeAddrs16 A s (A.add addr 2)

def readAddrs16 (addr : Nat) : List Addr := hostRange A (s.convert A addr) 2

def readAddrs32 (addr : Nat) : List Addr :=
  let addr := s.convert A addr
  if isAligned addr 4 then hostRange A addr 4
  else readAddrs16 A s addr ++ readAddrs16 A s (A.add addr 2)

/-- Where a routine of a width writes. -/
def Width.writeAddrs (addr : Nat) : Width → List Addr
  | .w8 => writeAddrs8 A s addr
  | .w16 => writeAddrs16 A s addr
  | .w32 => writeAddrs32 A s addr
  | .w64 =>
    let addr := s.convert A addr
    if isAligned addr 8 then hostRange A addr 8
    else writeAddrs32 A s addr ++ writeAddrs32 A s (A.add addr 4)
  | .natural =>
    let addr := s.convert A addr
    if isAligned addr A.pointerSize then hostRange A addr A.pointerSize
    else (List.range (A.pointerSize / 4)).flatMap fun i => writeAddrs32 A s (A.add addr (i * 4))

/-- Where it reads. -/
def Width.readAddrs (addr : Nat) : Width → List Addr
  | .w8 => hostRange A (s.convert A addr) 1
  | .w16 => readAddrs16 A s addr
  | .w32 => readAddrs32 A s addr
  | .w64 =>
    let addr := s.convert A addr
    if isAligned addr 8 then hostRange A addr 8
    else readAddrs32 A s addr ++ readAddrs32 A s (A.add addr 4)
  | .natural => hostRange A (s.convert A addr) A.pointerSize

def Call.touches : Call → List Addr
  | .write width addr _ => width.writeAddrs A s addr
  | .read width addr => width.readAddrs A s addr

end Addresses

/-- What a call reads, and the memory after it, if `addrs` are its bytes. -/
def Call.effectAt (A : Arch) (m : Memory) (addrs : List Addr) : Call → Option Nat × Memory
  | .write width _ data => (none, m.writeAt addrs (leBytes (width.bytes A) data))
  | .read _ _ => (some (leNat (addrs.map m)), m)

/-! ## What the routines access -/

variable {A : Arch} {s s' : Stack} {h h' : Host}

namespace Stack.Same

theorem refl (s : Stack) : s.Same s := ⟨rfl, rfl, rfl⟩

theorem trans {s'' : Stack} (h : s.Same s') (h' : s'.Same s'') : s.Same s'' :=
  ⟨h'.vmPtr.trans h.vmPtr, h'.lowStackTop.trans h.lowStackTop,
    h'.highStackBottom.trans h.highStackBottom⟩

theorem convert (h : s.Same s') (addr : Nat) : s'.convert A addr = s.convert A addr := by
  have hconverts : s'.converts A addr = s.converts A addr := by
    rw [Stack.converts, Stack.converts, h.vmPtr, h.lowStackTop, h.highStackBottom]
  rw [Stack.convert, Stack.convert, hconverts, h.lowStackTop, h.highStackBottom]

theorem converted (h : Host) (addr : Nat) : h.stack.Same (h.converted A addr).stack := by
  simp only [Host.converted, convertStackAddr]
  split
  · exact ⟨rfl, rfl, rfl⟩
  · exact refl _

end Stack.Same

@[simp] theorem length_hostRange (A : Arch) (addr : Nat) (n : Nat) :
    (hostRange A addr n).length = n := by
  induction n generalizing addr with
  | zero => rfl
  | succ n ih => rw [hostRange, List.length_cons, ih]

theorem Memory.writeAt_append {as bs : List Addr} {xs ys : List Byte} (m : Memory)
    (h : as.length = xs.length) :
    m.writeAt (as ++ bs) (xs ++ ys) = (m.writeAt as xs).writeAt bs ys := by
  induction as generalizing m xs with
  | nil =>
    have hxs : xs = [] := List.length_eq_zero_iff.mp h.symm
    subst hxs
    cases bs <;> rfl
  | cons a as ih =>
    cases xs with
    | nil => cases h
    | cons x xs => exact ih (Function.update m a x) (Nat.succ.inj h)

theorem Memory.writeAt_of_notMem {as : List Addr} {a : Addr} (m : Memory) (bs : List Byte)
    (h : a ∉ as) : m.writeAt as bs a = m a := by
  induction as generalizing m bs with
  | nil => rfl
  | cons b as ih =>
    cases bs with
    | nil => rfl
    | cons x bs =>
      rw [List.mem_cons, not_or] at h
      rw [Memory.writeAt, ih _ _ h.2, Function.update_of_ne h.1]

/-- What was written is there. -/
theorem Memory.map_writeAt {as : List Addr} {bs : List Byte} (m : Memory) (h : as.Nodup)
    (hlen : as.length = bs.length) : as.map (m.writeAt as bs) = bs := by
  induction as generalizing m bs with
  | nil => exact (List.length_eq_zero_iff.mp hlen.symm).symm
  | cons a as ih =>
    cases bs with
    | nil => cases hlen
    | cons x bs =>
      obtain ⟨ha, has⟩ := List.nodup_cons.mp h
      rw [List.map_cons, Memory.writeAt, ih _ has (Nat.succ.inj hlen),
        Memory.writeAt_of_notMem _ _ ha, Function.update_self]

/-- The routine wrote the bytes of `data` to the addresses `addrs`. -/
structure Wrote (h h' : Host) (addrs : List Addr) (n data : Nat) : Prop where
  stack : h.stack.Same h'.stack
  length : addrs.length = n
  memory : h'.memory = h.memory.writeAt addrs (leBytes n data)

theorem Wrote.store (addr data : Nat) (n : Nat) (h : Host) :
    Wrote h ((h.converted A addr).store A (h.stack.convert A addr) n data)
      (hostRange A (h.stack.convert A addr) n) n data :=
  ⟨.converted h addr, length_hostRange A _ n, rfl⟩

/-- Two writes, one behind the other. -/
theorem Wrote.append {h'' : Host} {as bs : List Addr} {m n data k : Nat}
    (h1 : Wrote h h' as m data) (h2 : Wrote h' h'' bs n (data / k)) (hk : k = 256 ^ m) :
    Wrote h h'' (as ++ bs) (m + n) data where
  stack := h1.stack.trans h2.stack
  length := by rw [List.length_append, h1.length, h2.length]
  memory := by
    rw [h2.memory, h1.memory, leBytes_add, hk, Memory.writeAt_append]
    rw [h1.length, length_leBytes]

/-- A routine that writes behind a translation of its own. -/
theorem Wrote.after {addr : Nat} {addrs : List Addr} {n data : Nat}
    (hw : Wrote (h.converted A addr) h' addrs n data) : Wrote h h' addrs n data :=
  ⟨(Stack.Same.converted h addr).trans hw.stack, hw.length, hw.memory⟩

theorem writeAddrs8_same (h : s.Same s') (addr : Nat) :
    writeAddrs8 A s' addr = writeAddrs8 A s addr := by
  rw [writeAddrs8, writeAddrs8, h.convert]

theorem writeAddrs16_same (h : s.Same s') (addr : Nat) :
    writeAddrs16 A s' addr = writeAddrs16 A s addr := by
  simp only [writeAddrs16, h.convert, writeAddrs8_same h]

theorem writeAddrs32_same (h : s.Same s') (addr : Nat) :
    writeAddrs32 A s' addr = writeAddrs32 A s addr := by
  simp only [writeAddrs32, h.convert, writeAddrs16_same h]

theorem Stack.Same.writeAddrs64 (h : s.Same s') (addr : Nat) :
    Width.w64.writeAddrs A s' addr = Width.w64.writeAddrs A s addr := by
  simp only [Width.writeAddrs, h.convert, writeAddrs32_same h]

theorem readAddrs16_same (h : s.Same s') (addr : Nat) :
    readAddrs16 A s' addr = readAddrs16 A s addr := by
  simp only [readAddrs16, h.convert]

theorem readAddrs32_same (h : s.Same s') (addr : Nat) :
    readAddrs32 A s' addr = readAddrs32 A s addr := by
  simp only [readAddrs32, h.convert, readAddrs16_same h]

theorem vmWriteMem8_wrote (h : Host) (addr data : Nat) :
    Wrote h (vmWriteMem8 A h addr data) (writeAddrs8 A h.stack addr) 1 data :=
  Wrote.store addr data 1 h

theorem vmWriteMem16_wrote (h : Host) (addr data : Nat) :
    Wrote h (vmWriteMem16 A h addr data) (writeAddrs16 A h.stack addr) 2 data := by
  rw [vmWriteMem16, writeAddrs16]
  dsimp only
  split
  · exact Wrote.store addr data 2 h
  · have h1 := (vmWriteMem8_wrote (A := A) (h.converted A addr) (h.stack.convert A addr) data).after
    rw [writeAddrs8_same (.converted h addr)] at h1
    have h2 := vmWriteMem8_wrote (A := A)
      (vmWriteMem8 A (h.converted A addr) (h.stack.convert A addr) data)
      (A.add (h.stack.convert A addr) 1) (data / 2 ^ 8)
    rw [writeAddrs8_same h1.stack] at h2
    exact h1.append h2 (by decide)

theorem vmWriteMem32_wrote (h : Host) (addr data : Nat) :
    Wrote h (vmWriteMem32 A h addr data) (writeAddrs32 A h.stack addr) 4 data := by
  rw [vmWriteMem32, writeAddrs32]
  dsimp only
  split
  · exact Wrote.store addr data 4 h
  · have h1 := (vmWriteMem16_wrote (A := A) (h.converted A addr) (h.stack.convert A addr) data).after
    rw [writeAddrs16_same (.converted h addr)] at h1
    have h2 := vmWriteMem16_wrote (A := A)
      (vmWriteMem16 A (h.converted A addr) (h.stack.convert A addr) data)
      (A.add (h.stack.convert A addr) 2) (data / 2 ^ 16)
    rw [writeAddrs16_same h1.stack] at h2
    exact h1.append h2 (by decide)

theorem vmWriteMem64_wrote (h : Host) (addr data : Nat) :
    Wrote h (vmWriteMem64 A h addr data) (Width.w64.writeAddrs A h.stack addr) 8 data := by
  rw [vmWriteMem64, Width.writeAddrs]
  dsimp only
  split
  · exact Wrote.store addr data 8 h
  · have h1 := (vmWriteMem32_wrote (A := A) (h.converted A addr) (h.stack.convert A addr) data).after
    rw [writeAddrs32_same (.converted h addr)] at h1
    have h2 := vmWriteMem32_wrote (A := A)
      (vmWriteMem32 A (h.converted A addr) (h.stack.convert A addr) data)
      (A.add (h.stack.convert A addr) 4) (data / 2 ^ 32)
    rw [writeAddrs32_same h1.stack] at h2
    exact h1.append h2 (by decide)

theorem vmWriteMemN_wrote (h : Host) (addr data : Nat) :
    Wrote h (vmWriteMemN A h addr data) (Width.natural.writeAddrs A h.stack addr) A.pointerSize
      data := by
  simp only [vmWriteMemN, Width.writeAddrs]
  split
  · exact Wrote.store addr data A.pointerSize h
  · have h1 := (vmWriteMem32_wrote (A := A) (h.converted A addr)
      (A.add (h.stack.convert A addr) 0) data).after
    rw [writeAddrs32_same (.converted h addr)] at h1
    cases A with
    | efi32 =>
      have hone : List.range (Arch.pointerSize .efi32 / 4) = [0] := rfl
      rw [hone, List.flatMap_singleton, List.foldl_cons, List.foldl_nil, Nat.zero_mul,
        Nat.pow_zero, Nat.div_one]
      exact h1
    | efi64 =>
      have htwo : List.range (Arch.pointerSize .efi64 / 4) = [0, 1] := rfl
      have h2 := vmWriteMem32_wrote (A := .efi64)
        (vmWriteMem32 .efi64 (h.converted .efi64 addr)
          (Arch.efi64.add (h.stack.convert .efi64 addr) 0) data)
        (Arch.efi64.add (h.stack.convert .efi64 addr) 4) (data / 2 ^ 32)
      rw [writeAddrs32_same h1.stack] at h2
      rw [htwo]
      simp only [List.flatMap_cons, List.flatMap_nil, List.append_nil, List.foldl_cons,
        List.foldl_nil, Nat.zero_mul, Nat.one_mul, Nat.mul_zero, Nat.mul_one, Nat.pow_zero,
        Nat.div_one]
      exact h1.append h2 (by decide)

/-- The result of a routine that read the bytes at `addrs`. -/
structure Got (h : Host) (result : Nat × Host) (addrs : List Addr) (n : Nat) : Prop where
  stack : h.stack.Same result.2.stack
  length : addrs.length = n
  memory : result.2.memory = h.memory
  value : result.1 = leNat (addrs.map h.memory)

theorem Got.load (addr : Nat) (n : Nat) (h : Host) :
    Got h ((h.converted A addr).load A (h.stack.convert A addr) n, h.converted A addr)
      (hostRange A (h.stack.convert A addr) n) n :=
  ⟨.converted h addr, length_hostRange A _ n, rfl, rfl⟩

theorem Got.after {addr : Nat} {addrs : List Addr} {n : Nat} {result : Nat × Host}
    (hg : Got (h.converted A addr) result addrs n) : Got h result addrs n :=
  ⟨(Stack.Same.converted h addr).trans hg.stack, hg.length, hg.memory, hg.value⟩

/-- Two reads, one behind the other. -/
theorem Got.append {low high : Nat × Host} {as bs : List Addr} {m n k : Nat}
    (h1 : Got h low as m) (h2 : Got low.2 high bs n) (hk : k = 256 ^ m) :
    Got h (low.1 + k * high.1, high.2) (as ++ bs) (m + n) where
  stack := h1.stack.trans h2.stack
  length := by rw [List.length_append, h1.length, h2.length]
  memory := h2.memory.trans h1.memory
  value := by
    rw [h2.value, h1.value, h1.memory, hk, List.map_append, leNat_append, List.length_map,
      h1.length]

theorem Got.lt {result : Nat × Host} {addrs : List Addr} {n : Nat} (hg : Got h result addrs n) :
    result.1 < 256 ^ n := by
  have hlt := leNat_lt (addrs.map h.memory)
  rwa [List.length_map, hg.length, ← hg.value] at hlt

theorem vmReadMem8_got (h : Host) (addr : Nat) :
    Got h (vmReadMem8 A h addr) (hostRange A (h.stack.convert A addr) 1) 1 :=
  Got.load addr 1 h

theorem vmReadMem16_got (h : Host) (addr : Nat) :
    Got h (vmReadMem16 A h addr) (readAddrs16 A h.stack addr) 2 := by
  rw [vmReadMem16, readAddrs16]
  split
  · exact Got.load addr 2 h
  · have hload := Got.load (A := A) addr 2 h
    refine ⟨hload.stack, hload.length, hload.memory, ?_⟩
    have hlow := (h.memory (h.stack.convert A addr)).isLt
    have hhigh := (h.memory (A.add (h.stack.convert A addr) 1)).isLt
    simp only [Host.converted, hostRange, List.map_cons, List.map_nil, leNat, Nat.shiftLeft_eq]
    omega

theorem vmReadMem32_got (h : Host) (addr : Nat) :
    Got h (vmReadMem32 A h addr) (readAddrs32 A h.stack addr) 4 := by
  rw [vmReadMem32, readAddrs32]
  dsimp only
  split
  · exact Got.load addr 4 h
  · have h1 := (vmReadMem16_got (A := A) (h.converted A addr) (h.stack.convert A addr)).after
    rw [readAddrs16_same (.converted h addr)] at h1
    have h2 := vmReadMem16_got (A := A)
      (vmReadMem16 A (h.converted A addr) (h.stack.convert A addr)).2
      (A.add (h.stack.convert A addr) 2)
    rw [readAddrs16_same h1.stack] at h2
    -- the halves do not overlap, so `|=` adds
    have hadd := Nat.shiftLeft_add_eq_or_of_lt (i := 16) (lt_of_lt_of_eq h1.lt (by decide))
      (vmReadMem16 A (vmReadMem16 A (h.converted A addr) (h.stack.convert A addr)).2
        (A.add (h.stack.convert A addr) 2)).1
    rw [Nat.or_comm, ← hadd, Nat.shiftLeft_eq, Nat.add_comm, Nat.mul_comm]
    exact h1.append h2 (by decide)

theorem vmReadMem64_got (h : Host) (addr : Nat) :
    Got h (vmReadMem64 A h addr) (Width.w64.readAddrs A h.stack addr) 8 := by
  rw [vmReadMem64, Width.readAddrs]
  dsimp only
  split
  · exact Got.load addr 8 h
  · have h1 := (vmReadMem32_got (A := A) (h.converted A addr) (h.stack.convert A addr)).after
    rw [readAddrs32_same (.converted h addr)] at h1
    have h2 := vmReadMem32_got (A := A)
      (vmReadMem32 A (h.converted A addr) (h.stack.convert A addr)).2
      (A.add (h.stack.convert A addr) 4)
    rw [readAddrs32_same h1.stack] at h2
    exact h1.append h2 (by decide)

theorem vmReadMemN_got (h : Host) (addr : Nat) :
    Got h (vmReadMemN A h addr) (Width.natural.readAddrs A h.stack addr) A.pointerSize := by
  rw [vmReadMemN, Width.readAddrs]
  split <;> exact Got.load addr A.pointerSize h

/-! ## Calls -/

/-- A call keeps the translation of addresses. -/
theorem Call.perform_same (h : Host) (call : Call) :
    h.stack.Same (call.perform A h).2.stack := by
  cases call with
  | write width addr data =>
    cases width
    case w8 => exact (vmWriteMem8_wrote h addr data).stack
    case w16 => exact (vmWriteMem16_wrote h addr data).stack
    case w32 => exact (vmWriteMem32_wrote h addr data).stack
    case w64 => exact (vmWriteMem64_wrote h addr data).stack
    case natural => exact (vmWriteMemN_wrote h addr data).stack
  | read width addr =>
    cases width
    case w8 => exact (vmReadMem8_got h addr).stack
    case w16 => exact (vmReadMem16_got h addr).stack
    case w32 => exact (vmReadMem32_got h addr).stack
    case w64 => exact (vmReadMem64_got h addr).stack
    case natural => exact (vmReadMemN_got h addr).stack

theorem Wrote.effectAt {width : Width} {addr data : Nat} {addrs : List Addr}
    (hw : Wrote h h' addrs (width.bytes A) data) :
    (none, h'.memory) = (Call.write width addr data).effectAt A h.memory addrs := by
  rw [hw.memory]
  rfl

theorem Got.effectAt {width : Width} {addr n : Nat} {addrs : List Addr} {result : Nat × Host}
    (hg : Got h result addrs n) :
    (some result.1, result.2.memory) = (Call.read width addr).effectAt A h.memory addrs := by
  rw [hg.memory, hg.value]
  rfl

theorem Call.perform_eq (h : Host) (call : Call) :
    ((call.perform A h).1, (call.perform A h).2.memory) =
      call.effectAt A h.memory (call.touches A h.stack) := by
  cases call with
  | write width addr data =>
    cases width
    case w8 => exact (vmWriteMem8_wrote h addr data).effectAt
    case w16 => exact (vmWriteMem16_wrote h addr data).effectAt
    case w32 => exact (vmWriteMem32_wrote h addr data).effectAt
    case w64 => exact (vmWriteMem64_wrote h addr data).effectAt
    case natural => exact (vmWriteMemN_wrote h addr data).effectAt
  | read width addr =>
    cases width
    case w8 => exact (vmReadMem8_got h addr).effectAt
    case w16 => exact (vmReadMem16_got h addr).effectAt
    case w32 => exact (vmReadMem32_got h addr).effectAt
    case w64 => exact (vmReadMem64_got h addr).effectAt
    case natural => exact (vmReadMemN_got h addr).effectAt

end EfiCore.Ebc
