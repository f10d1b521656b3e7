import EfiCore.Pci.RootBridgeIo

/-! # The element law of the transfers

Element `i` of a transfer uses the register or address `i` elements on, or the same one again for
a FIFO, and likewise the buffer, where the fill widths stay. `PcatRootBridgeIoPciRW` takes its
stride from the raw width code, and `PcatRootBridgeIoIoWrite` loads four bytes for each element.
-/

namespace EfiCore.Pci

open EfiCore.Lib

variable {A : Arch} {bridge : Bridge} {direction : Direction}
  {width address register count buffer source target inStride outStride dest src : Nat}

/-- Requests on a root bridge. -/
inductive Request where
  | mem (direction : Direction) (width address count buffer : Nat)
  | io (direction : Direction) (width address count buffer : Nat)
  | pci (direction : Direction) (width register count buffer : Nat)
  | copy (width dest src count : Nat)

def deviceStep (width : Nat) : Nat := if IsFifo width then 0 else elementSize width

def bufferStep (width : Nat) : Nat := if IsFill width then 0 else elementSize width

/-- What the law says the elements are. -/
def elements (A : Arch) (width device count buffer : Nat) : List Access :=
  (List.range count).map fun i =>
    ⟨(device + i * deviceStep width) % 2 ^ A.bits, elementSize width,
      (buffer + i * bufferStep width) % 2 ^ A.bits, elementSize width⟩

/-- A width code with elements of one, two or four bytes, an aligned start, and a buffer. -/
structure WellAimed (A : Arch) (width start buffer : Nat) : Prop where
  known : width < widthMaximum
  narrow : width % 4 < 3
  aligned : start % elementSize width = 0
  present : 0 < buffer
  small : buffer < 2 ^ A.bits

/-- The requests that the law is about. Ports and registers are those of IA-32, where the port
space has `2 ^ 16` addresses. -/
def Request.Valid (A : Arch) (bridge : Bridge) : Request → Prop
  | .mem _ width address _ buffer =>
    WellAimed A width address buffer ∧ bridge.memBase ≤ address ∧ address ≤ bridge.memLimit
  | .io _ width address count buffer =>
    A = .efi32 ∧ WellAimed A width address buffer ∧ address < 2 ^ 16 ∧
      address + count * deviceStep width ≤ 2 ^ 16 ∧
      (bridge.ioBase ≤ address ∧ address ≤ bridge.ioLimit ∨
        address / 4 * 4 = pciAddressPort ∨ address / 4 * 4 = pciDataPort)
  | .pci _ width register count buffer =>
    A = .efi32 ∧ WellAimed A width register buffer ∧ register < 256 ∧
      register + count * deviceStep width ≤ 256 ∧ buffer + count * bufferStep width ≤ 2 ^ A.bits
  | .copy width dest src count =>
    width < 3 ∧ dest % elementSize width = 0 ∧ src % elementSize width = 0 ∧
      bridge.memBase ≤ dest ∧ bridge.memBase ≤ src ∧
      dest + count * elementSize width ≤ bridge.memLimit + 1 ∧
      src + count * elementSize width ≤ bridge.memLimit + 1 ∧
      bridge.memLimit + bridge.physicalMemoryBase < 2 ^ A.bits

/-- The law. -/
def Request.FollowsLaw (A : Arch) (bridge : Bridge) : Request → Prop
  | .mem .read width address count buffer =>
    memRead A bridge width address count buffer =
      some (elements A width (address + bridge.physicalMemoryBase) count buffer)
  | .mem .write width address count buffer =>
    memWrite A bridge width address count buffer =
      some (elements A width (address + bridge.physicalMemoryBase) count buffer)
  | .io direction width address count buffer =>
    ioRW bridge direction width address count buffer =
      some (elements A width address count buffer)
  | .pci direction width register count buffer =>
    pciRW bridge direction width register count buffer =
      some (elements A width register count buffer)
  | .copy width dest src count =>
    ∀ memory, copyMem A bridge width dest src count memory =
      some (copied memory (dest + bridge.physicalMemoryBase) (src + bridge.physicalMemoryBase)
        (count * elementSize width))

/-- Four bytes for each element are right where that is its size, and the strides of the
configuration space where the code is its own size. -/
def Request.Suits : Request → Prop
  | .mem .. => True
  | .io direction width _ count _ => direction = .read ∨ count = 0 ∨ elementSize width = 4
  | .pci direction width _ count _ =>
    (count ≤ 1 ∨ IsPlain width) ∧ (direction = .read ∨ count = 0 ∨ elementSize width = 4)
  | .copy .. => True

/-! ## Loops -/

theorem elementSize_pos (width : Nat) : 0 < elementSize width := Nat.two_pow_pos _

theorem elementSize_cases (hnarrow : width % 4 < 3) :
    elementSize width = 1 ∨ elementSize width = 2 ∨ elementSize width = 4 := by
  have hcode : width % 4 = 0 ∨ width % 4 = 1 ∨ width % 4 = 2 := by omega
  rcases hcode with hcode | hcode | hcode <;> simp [elementSize, hcode]

theorem deviceStep_le_four (hnarrow : width % 4 < 3) : deviceStep width ≤ 4 := by
  have hsize := elementSize_cases hnarrow
  rw [deviceStep]
  split <;> omega

@[simp] theorem length_elements (A : Arch) (width device count buffer : Nat) :
    (elements A width device count buffer).length = count := by
  simp [elements]

theorem elements_mod (A : Arch) (width device count buffer : Nat) :
    elements A width (device % 2 ^ A.bits) count buffer = elements A width device count buffer := by
  simp [elements, Nat.mod_add_mod]

theorem elements_succ (A : Arch) (width device count buffer : Nat) :
    elements A width device (count + 1) buffer =
      ⟨device % 2 ^ A.bits, elementSize width, buffer % 2 ^ A.bits, elementSize width⟩ ::
        elements A width (device + deviceStep width) count (buffer + bufferStep width) := by
  rw [elements, List.range_succ_eq_map, List.map_cons, List.map_map]
  simp only [Nat.zero_mul, Nat.add_zero, elements]
  refine congrArg _ (List.map_congr_left fun i _ => ?_)
  simp only [Function.comp_apply, Nat.succ_eq_add_one, Nat.add_mul, Nat.one_mul,
    Nat.add_assoc, Nat.add_comm (i * _)]

/-- The pointers after `i` elements. -/
theorem moves_eq (hsource : source < 2 ^ A.bits) (htarget : target < 2 ^ A.bits) :
    moves A inStride outStride count source target =
      (List.range count).map fun i =>
        ((source + i * inStride) % 2 ^ A.bits, (target + i * outStride) % 2 ^ A.bits) := by
  induction count generalizing source target with
  | zero => rfl
  | succ count ih =>
    have hpos : 0 < 2 ^ A.bits := Nat.two_pow_pos _
    have hstep (a b : Nat) : A.add a b < 2 ^ A.bits := Nat.mod_lt _ hpos
    rw [moves, ih (hstep ..) (hstep ..), List.range_succ_eq_map, List.map_cons, List.map_map]
    simp only [Nat.zero_mul, Nat.add_zero, Nat.mod_eq_of_lt hsource, Nat.mod_eq_of_lt htarget]
    refine congrArg _ (List.map_congr_left fun i _ => ?_)
    simp only [Function.comp_apply, Arch.add, Nat.mod_add_mod, Nat.succ_eq_add_one, Nat.add_mul,
      Nat.one_mul, Nat.add_assoc, Nat.add_comm (i * _)]

/-! ## Memory and ports -/

theorem memAddress_eq (hpresent : 0 < buffer) (hbase : bridge.memBase ≤ address)
    (hlimit : address ≤ bridge.memLimit) (haligned : address % elementSize width = 0) :
    memAddress A bridge width address buffer =
      some ((address + bridge.physicalMemoryBase) % 2 ^ A.bits) := by
  have hmod : (address + bridge.physicalMemoryBase) % 2 ^ 64 % 2 ^ A.bits =
      (address + bridge.physicalMemoryBase) % 2 ^ A.bits :=
    Nat.mod_mod_of_dvd _ (by cases A <;> decide)
  rw [memAddress, if_neg (by omega), if_neg (by omega), if_neg (by omega), hmod]

/-- The class of a width code is one of three. -/
theorem width_cases (hknown : width < widthMaximum) :
    (IsPlain width ∧ deviceStep width = elementSize width ∧ bufferStep width = elementSize width) ∨
    (¬IsPlain width ∧ IsFifo width ∧ deviceStep width = 0 ∧
      bufferStep width = elementSize width) ∨
    (¬IsPlain width ∧ ¬IsFifo width ∧ IsFill width ∧ deviceStep width = elementSize width ∧
      bufferStep width = 0) := by
  have hmaximum : widthMaximum = 12 := rfl
  have hclass : width ≤ 3 ∨ 4 ≤ width ∧ width ≤ 7 ∨ 8 ≤ width ∧ width ≤ 11 := by omega
  rcases hclass with hplain | hfifo | hfill
  · have hnot : ¬IsFifo width := fun h => by have := h.1; omega
    have hnot' : ¬IsFill width := fun h => by have := h.1; omega
    exact .inl ⟨hplain, if_neg hnot, if_neg hnot'⟩
  · have hnot : ¬IsPlain width := fun h => by have : width ≤ 3 := h; omega
    have hnot' : ¬IsFill width := fun h => by have := h.1; omega
    exact .inr (.inl ⟨hnot, hfifo, if_pos hfifo, if_neg hnot'⟩)
  · have hnot : ¬IsPlain width := fun h => by have : width ≤ 3 := h; omega
    have hnot' : ¬IsFifo width := fun h => by have := h.2; omega
    exact .inr (.inr ⟨hnot, hnot', hfill, if_neg hnot', if_pos hfill⟩)

theorem memRead_eq (haimed : WellAimed A width address buffer)
    (hbase : bridge.memBase ≤ address) (hlimit : address ≤ bridge.memLimit) :
    memRead A bridge width address count buffer =
      some (elements A width (address + bridge.physicalMemoryBase) count buffer) := by
  have hhost := Nat.mod_lt (address + bridge.physicalMemoryBase) (Nat.two_pow_pos A.bits)
  have hwide : width % 4 ≠ 3 := Nat.ne_of_lt haimed.narrow
  rw [memRead, memAddress_eq haimed.present hbase hlimit haimed.aligned, Option.bind_some,
    ← elements_mod]
  obtain ⟨hplain, hdevice, hbuffer⟩ | ⟨hplain, hfifo, hdevice, hbuffer⟩ |
    ⟨hplain, hfifo, hfill, hdevice, hbuffer⟩ := width_cases haimed.known
  all_goals simp [*, memRW, moves_eq haimed.small hhost, elements, Function.comp_def]

theorem memWrite_eq (haimed : WellAimed A width address buffer)
    (hbase : bridge.memBase ≤ address) (hlimit : address ≤ bridge.memLimit) :
    memWrite A bridge width address count buffer =
      some (elements A width (address + bridge.physicalMemoryBase) count buffer) := by
  have hhost := Nat.mod_lt (address + bridge.physicalMemoryBase) (Nat.two_pow_pos A.bits)
  have hwide : width % 4 ≠ 3 := Nat.ne_of_lt haimed.narrow
  rw [memWrite, memAddress_eq haimed.present hbase hlimit haimed.aligned, Option.bind_some,
    ← elements_mod]
  obtain ⟨hplain, hdevice, hbuffer⟩ | ⟨hplain, hfifo, hdevice, hbuffer⟩ |
    ⟨hplain, hfifo, hfill, hdevice, hbuffer⟩ := width_cases haimed.known
  all_goals simp [*, memRW, moves_eq hhost haimed.small, elements, Function.comp_def]

/-- The bytes of the buffer that an element uses in `PcatIo.c`. -/
def touch (direction : Direction) (access : Access) : Access :=
  { access with touched := if direction = .read then access.size else 4 }

/-- The port of an element is one of the port space, so `dx` holds it. -/
theorem portOf_element {i : Nat} (hsmall : address < 2 ^ 16)
    (hports : address + count * deviceStep width ≤ 2 ^ 16) (hi : i < count) :
    portOf ((address + i * deviceStep width) % 2 ^ Arch.efi32.bits) =
      (address + i * deviceStep width) % 2 ^ Arch.efi32.bits := by
  have hnext : (i + 1) * deviceStep width ≤ count * deviceStep width :=
    Nat.mul_le_mul_right _ hi
  rw [Nat.succ_mul] at hnext
  have hport : address + i * deviceStep width < 2 ^ 16 := by
    rcases Nat.eq_zero_or_pos (deviceStep width) with hstep | hstep
    · rw [hstep, Nat.mul_zero]
      exact hsmall
    · omega
  have hwide : (2 : Nat) ^ 16 ≤ 2 ^ Arch.efi32.bits := by decide
  rw [portOf, Nat.mod_eq_of_lt (hport.trans_le hwide), Nat.mod_eq_of_lt hport]

theorem ioRW_eq (haimed : WellAimed .efi32 width address buffer) (hsmall : address < 2 ^ 16)
    (hports : address + count * deviceStep width ≤ 2 ^ 16)
    (hrange : bridge.ioBase ≤ address ∧ address ≤ bridge.ioLimit ∨
      address / 4 * 4 = pciAddressPort ∨ address / 4 * 4 = pciDataPort) :
    ioRW bridge direction width address count buffer =
      some ((elements .efi32 width address count buffer).map (touch direction)) := by
  have hpresent := haimed.present
  have hwide : width % 4 ≠ 3 := Nat.ne_of_lt haimed.narrow
  have hword : address < 2 ^ Arch.efi32.bits := hsmall.trans_le (by decide)
  simp only [ioRW, Nat.mod_eq_of_lt hword]
  rw [if_neg (by omega), if_neg (by omega), if_neg (Nat.not_le.mpr haimed.known),
    if_neg (not_not.mpr haimed.aligned), if_neg hwide, moves_eq hword haimed.small]
  simp only [elements, List.map_map]
  refine congrArg some (List.map_congr_left fun i hi => ?_)
  have hport := portOf_element hsmall hports (List.mem_range.mp hi)
  simp only [Function.comp_apply, touch, deviceStep, bufferStep] at hport ⊢
  rw [hport]
  cases direction <;> rfl

/-- Four bytes are the bytes of the element in the widths of four bytes only. -/
theorem map_touch_iff (A : Arch) (device buffer : Nat) :
    (elements A width device count buffer).map (touch direction) =
        elements A width device count buffer ↔
      direction = .read ∨ count = 0 ∨ elementSize width = 4 := by
  cases count with
  | zero => simp [elements]
  | succ count =>
    constructor
    · intro h
      rw [elements_succ, List.map_cons] at h
      have htouched : (if direction = .read then elementSize width else 4) = elementSize width :=
        congrArg Access.touched (List.cons.inj h).1
      by_cases hread : direction = .read
      · exact .inl hread
      · rw [if_neg hread] at htouched
        exact .inr (.inr htouched.symm)
    · intro h
      refine (List.map_congr_left fun access haccess => ?_).trans (List.map_id _)
      obtain ⟨i, _, rfl⟩ := List.mem_map.mp haccess
      rcases h with hread | hcount | hsize
      · simp [touch, hread]
      · exact absurd hcount (Nat.succ_ne_zero count)
      · simp [touch, hsize]

/-! ## Configuration space -/

/-- One cycle on the data port, at the byte of the register. -/
theorem pciLoop_succ {stride : Nat} (hknown : width < widthMaximum) (hnarrow : width % 4 < 3)
    (haligned : register % elementSize width = 0) (hpresent : 0 < buffer)
    (hsmall : buffer < 2 ^ Arch.efi32.bits) :
    pciLoop bridge direction width stride (count + 1) register (register % 4) buffer =
      touch direction ⟨register, elementSize width, buffer, elementSize width⟩ ::
        pciLoop bridge direction width stride count
          (if IsPlain width then (register + stride) % 256 else register)
          ((register % 4 + stride) % 4) (Arch.efi32.add buffer stride) := by
  have hword := Arch.efi32.two_pow_32_le
  have hdata : pciDataPort = 0xcfc := rfl
  have hport : (pciDataPort + register % 4) % elementSize width = 0 := by
    rcases elementSize_cases hnarrow with hsize | hsize | hsize <;> rw [hsize] at haligned ⊢ <;> omega
  have hport' : (pciDataPort + register % 4) / 4 * 4 = pciDataPort := by omega
  have hcycle : ioRW bridge direction width (pciDataPort + register % 4) 1 buffer =
      some ([⟨pciDataPort + register % 4, elementSize width, buffer, elementSize width⟩].map
        (touch direction)) := by
    have hstep := deviceStep_le_four hnarrow
    rw [ioRW_eq ⟨hknown, hnarrow, hport, hpresent, hsmall⟩ (by omega) (by omega)
      (.inr (.inr hport')), elements_succ, Nat.mod_eq_of_lt (by omega), Nat.mod_eq_of_lt hsmall]
    rfl
  have hregister : register / 4 * 4 + register % 4 = register := Nat.div_add_mod' register 4
  rw [pciLoop, hcycle]
  simp [touch, hregister]

/-- In the plain widths the code is the size. -/
theorem two_pow_of_isPlain (hplain : IsPlain width) : 2 ^ width = elementSize width := by
  have hcode : width < 4 := Nat.lt_succ_of_le hplain
  rw [elementSize, Nat.mod_eq_of_lt hcode]

theorem pciLoop_of_isPlain (hplain : IsPlain width) (hnarrow : width % 4 < 3)
    (haligned : register % elementSize width = 0) (hpresent : 0 < buffer)
    (hroom : register + count * elementSize width ≤ 256)
    (hwhole : buffer + count * elementSize width ≤ 2 ^ Arch.efi32.bits) :
    pciLoop bridge direction width (elementSize width) count register (register % 4) buffer =
      (elements .efi32 width register count buffer).map (touch direction) := by
  have hword := Arch.efi32.two_pow_32_le
  have hknown : width < widthMaximum := Nat.lt_of_le_of_lt (m := 3) hplain (by decide)
  have hsize := elementSize_pos width
  obtain ⟨_, hdevice, hbuffer⟩ | ⟨hnot, _⟩ | ⟨hnot, _⟩ := width_cases hknown
  rotate_left
  · exact absurd hplain hnot
  · exact absurd hplain hnot
  induction count generalizing register buffer with
  | zero => rfl
  | succ count ih =>
    rw [Nat.succ_mul] at hroom hwhole
    rw [pciLoop_succ hknown hnarrow haligned hpresent (by omega), elements_succ, List.map_cons,
      if_pos hplain, Nat.mod_add_mod, hdevice, hbuffer,
      Nat.mod_eq_of_lt (by omega : register < 2 ^ Arch.efi32.bits),
      Nat.mod_eq_of_lt (by omega : buffer < 2 ^ Arch.efi32.bits)]
    refine congrArg _ ?_
    cases count with
    | zero => rfl
    | succ count =>
      -- there is an element left, so neither pointer has come to the end of its range
      have hleft : elementSize width ≤ (count + 1) * elementSize width :=
        Nat.le_mul_of_pos_left _ (Nat.succ_pos count)
      have hnext : (register + elementSize width) % elementSize width = 0 := by
        rw [Nat.add_mod_right, haligned]
      rw [Nat.mod_eq_of_lt (by omega : register + elementSize width < 256), Arch.add,
        Nat.mod_eq_of_lt (by omega : buffer + elementSize width < 2 ^ Arch.efi32.bits)]
      exact ih hnext (by omega) (by omega) (by omega)

/-- At a buffer pointer that has wrapped to `NULL` there is no cycle. -/
theorem pciLoop_null {stride pciDataStride : Nat} :
    pciLoop bridge direction width stride (count + 1) register pciDataStride 0 =
      pciLoop bridge direction width stride count
        (if IsPlain width then (register + stride) % 256 else register)
        ((pciDataStride + stride) % 4) (Arch.efi32.add 0 stride) := rfl

/-- In the other widths the register is the same for all cycles, and so is the data port. -/
theorem two_pow_mod_four (hplain : ¬IsPlain width) : 2 ^ width % 4 = 0 := by
  have hcode : 2 ≤ width := Nat.le_of_lt (Nat.lt_of_not_le fun h => hplain (h.trans (by decide)))
  exact Nat.mod_eq_zero_of_dvd (Nat.pow_dvd_pow 2 hcode)

theorem length_pciLoop_le (hplain : ¬IsPlain width) (hknown : width < widthMaximum)
    (hnarrow : width % 4 < 3) (haligned : register % elementSize width = 0)
    (hsmall : buffer < 2 ^ Arch.efi32.bits) :
    (pciLoop bridge direction width (2 ^ width) count register (register % 4) buffer).length ≤
      count := by
  induction count generalizing buffer with
  | zero => exact Nat.le_refl 0
  | succ count ih =>
    have hport : (register % 4 + 2 ^ width) % 4 = register % 4 := by
      rw [Nat.add_mod, two_pow_mod_four hplain, Nat.add_zero, Nat.mod_mod, Nat.mod_mod]
    have hrest := @ih (Arch.efi32.add buffer (2 ^ width)) (Nat.mod_lt _ (Nat.two_pow_pos _))
    by_cases hnull : buffer = 0
    · subst hnull
      rw [pciLoop_null, if_neg hplain, hport]
      exact hrest.trans (Nat.le_succ count)
    · rw [pciLoop_succ hknown hnarrow haligned (Nat.pos_of_ne_zero hnull) hsmall, if_neg hplain,
        hport, List.length_cons]
      exact Nat.succ_le_succ hrest

/-- The second cycle is not where the law has it. -/
theorem pciLoop_ne_elements (hplain : ¬IsPlain width)
    (haimed : WellAimed .efi32 width register buffer)
    (hroom : register + (count + 2) * deviceStep width ≤ 256) :
    pciLoop bridge direction width (2 ^ width) (count + 2) register (register % 4) buffer ≠
      elements .efi32 width register (count + 2) buffer := by
  have hword := Arch.efi32.two_pow_32_le
  have hport : (register % 4 + 2 ^ width) % 4 = register % 4 := by
    rw [Nat.add_mod, two_pow_mod_four hplain, Nat.add_zero, Nat.mod_mod, Nat.mod_mod]
  have hnext : Arch.efi32.add buffer (2 ^ width) < 2 ^ Arch.efi32.bits := Nat.mod_lt _ (Nat.two_pow_pos _)
  rw [pciLoop_succ haimed.known haimed.narrow haimed.aligned haimed.present haimed.small,
    if_neg hplain, hport, elements_succ]
  intro h
  have hrest := (List.cons.inj h).2
  by_cases hnull : Arch.efi32.add buffer (2 ^ width) = 0
  · have hfew : (pciLoop bridge direction width (2 ^ width) count register (register % 4)
        (Arch.efi32.add 0 (2 ^ width))).length ≤ count :=
      length_pciLoop_le hplain haimed.known haimed.narrow haimed.aligned
        (Nat.mod_lt _ (Nat.two_pow_pos Arch.efi32.bits))
    rw [hnull, pciLoop_null, if_neg hplain, hport] at hrest
    have hlength := congrArg List.length hrest
    rw [length_elements] at hlength
    exact absurd hlength (Nat.ne_of_lt (Nat.lt_succ_of_le hfew))
  · rw [pciLoop_succ haimed.known haimed.narrow haimed.aligned (Nat.pos_of_ne_zero hnull) hnext,
      elements_succ] at hrest
    have hsecond := (List.cons.inj hrest).1
    have hdevice : register = (register + deviceStep width) % 2 ^ Arch.efi32.bits :=
      congrArg Access.device hsecond
    have hbuffer : Arch.efi32.add buffer (2 ^ width) = (buffer + bufferStep width) % 2 ^ Arch.efi32.bits :=
      congrArg Access.buffer hsecond
    have hsize := elementSize_pos width
    obtain ⟨hclass, _⟩ | ⟨_, hfifo, _, hstep⟩ | ⟨_, _, _, hstep, _⟩ := width_cases haimed.known
    · exact hplain hclass
    · -- a FIFO: the buffer has advanced by more than the element
      have hfar : 2 ^ 4 ≤ 2 ^ width := Nat.pow_le_pow_right (by decide) hfifo.1
      have hfar' : 2 ^ width ≤ 2 ^ 7 := Nat.pow_le_pow_right (by decide) hfifo.2
      have hsize' := elementSize_cases haimed.narrow
      have hsame : 2 ^ width ≡ elementSize width [MOD 2 ^ Arch.efi32.bits] :=
        Nat.ModEq.add_left_cancel' buffer (hstep ▸ hbuffer)
      have := Nat.ModEq.eq_of_lt_of_lt hsame (by omega) (by omega)
      omega
    · -- a fill: the register has not advanced
      have hone : elementSize width ≤ (count + 2) * elementSize width :=
        Nat.le_mul_of_pos_left _ (by omega)
      rw [hstep] at hdevice hroom
      rw [Nat.mod_eq_of_lt (by omega)] at hdevice
      omega

theorem pciRW_eq_iff (haimed : WellAimed .efi32 width register buffer)
    (hroom : register + count * deviceStep width ≤ 256)
    (hwhole : buffer + count * bufferStep width ≤ 2 ^ Arch.efi32.bits) :
    pciRW bridge direction width register count buffer =
        some (elements .efi32 width register count buffer) ↔
      (count ≤ 1 ∨ IsPlain width) ∧ (direction = .read ∨ count = 0 ∨ elementSize width = 4) := by
  have hword := Arch.efi32.two_pow_32_le
  rw [pciRW, if_neg (Nat.ne_of_gt haimed.present), if_neg (Nat.not_le.mpr haimed.known),
    if_neg (Nat.not_le.mpr haimed.narrow), Option.some_inj, ← map_touch_iff .efi32 register buffer]
  by_cases hplain : IsPlain width
  · obtain ⟨_, hdevice, hbuffer⟩ | ⟨hnot, _⟩ | ⟨hnot, _⟩ := width_cases haimed.known
    rotate_left
    · exact absurd hplain hnot
    · exact absurd hplain hnot
    rw [hdevice] at hroom
    rw [hbuffer] at hwhole
    rw [two_pow_of_isPlain hplain, pciLoop_of_isPlain hplain haimed.narrow haimed.aligned
      haimed.present hroom hwhole]
    simp [hplain]
  · by_cases hfew : count ≤ 1
    · have hloop : pciLoop bridge direction width (2 ^ width) count register (register % 4) buffer =
          (elements .efi32 width register count buffer).map (touch direction) := by
        obtain rfl | rfl := Nat.le_one_iff_eq_zero_or_eq_one.mp hfew
        · rfl
        · rw [pciLoop_succ haimed.known haimed.narrow haimed.aligned haimed.present haimed.small,
            elements_succ, Nat.mod_eq_of_lt (by omega : register < 2 ^ Arch.efi32.bits),
            Nat.mod_eq_of_lt haimed.small]
          simp [elements, pciLoop]
      rw [hloop]
      simp [hfew]
    · obtain ⟨count, rfl⟩ : ∃ n, count = n + 2 := ⟨count - 2, by omega⟩
      have hne : pciLoop bridge direction width (2 ^ width) (count + 2) register (register % 4)
          buffer ≠ elements .efi32 width register (count + 2) buffer :=
        pciLoop_ne_elements hplain haimed hroom
      simp [hne, hplain]

/-! ## Copies -/

/-- An element of the bridge's memory, with a host address. -/
structure Reachable (A : Arch) (bridge : Bridge) (width address : Nat) : Prop where
  aligned : address % elementSize width = 0
  above : bridge.memBase ≤ address
  below : address ≤ bridge.memLimit
  host : bridge.memLimit + bridge.physicalMemoryBase < 2 ^ A.bits

theorem Reachable.memAddress_eq (h : Reachable A bridge width address) :
    memAddress A bridge width address 1 = some (address + bridge.physicalMemoryBase) := by
  have hbelow := h.below
  have hhost := h.host
  rw [Pci.memAddress_eq (by decide) h.above h.below h.aligned, Nat.mod_eq_of_lt (by omega)]

theorem copyElement_eq {memory : Nat → Byte} (hcode : width < 3)
    (hdest : Reachable A bridge width dest) (hsrc : Reachable A bridge width src) :
    copyElement A bridge width dest src memory =
      some (copied memory (dest + bridge.physicalMemoryBase) (src + bridge.physicalMemoryBase)
        (elementSize width)) := by
  have hwide : width % 4 ≠ 3 := by omega
  simp only [copyElement, hdest.memAddress_eq, hsrc.memAddress_eq, Option.bind_some, if_neg hwide,
    copied]

/-- The elements from an address on. -/
structure Window (A : Arch) (bridge : Bridge) (width address count : Nat) : Prop where
  aligned : address % elementSize width = 0
  above : bridge.memBase ≤ address
  below : address + count * elementSize width ≤ bridge.memLimit + 1
  host : bridge.memLimit + bridge.physicalMemoryBase < 2 ^ A.bits

theorem Window.first (h : Window A bridge width address (count + 1)) :
    Reachable A bridge width address := by
  have hbelow := h.below
  have hsize := elementSize_pos width
  rw [Nat.succ_mul] at hbelow
  exact ⟨h.aligned, h.above, by omega, h.host⟩

theorem Window.last (h : Window A bridge width address (count + 1)) :
    Reachable A bridge width (address + count * elementSize width) := by
  have hbelow := h.below
  have habove := h.above
  have hsize := elementSize_pos width
  rw [Nat.succ_mul] at hbelow
  exact ⟨by rw [Nat.add_mul_mod_self_right, h.aligned], by omega, by omega, h.host⟩

theorem Window.tail (h : Window A bridge width address (count + 1)) :
    Window A bridge width (address + elementSize width) count := by
  have hbelow := h.below
  have habove := h.above
  rw [Nat.succ_mul] at hbelow
  exact ⟨by rw [Nat.add_mod_right, h.aligned], by omega, by omega, h.host⟩

theorem Window.init (h : Window A bridge width address (count + 1)) :
    Window A bridge width address count := by
  have hbelow := h.below
  rw [Nat.succ_mul] at hbelow
  exact ⟨h.aligned, h.above, by omega, h.host⟩

theorem Arch.two_pow_bits_le (A : Arch) : 2 ^ A.bits ≤ 2 ^ 64 := by cases A <;> decide

theorem copyLoop_zero {memory : Nat → Byte} {forward : Bool} :
    copyLoop A bridge width forward 0 dest src memory = some memory := rfl

theorem copyLoop_succ {memory : Nat → Byte} {forward : Bool} :
    copyLoop A bridge width forward (count + 1) dest src memory =
      (copyElement A bridge width dest src memory).bind fun memory =>
        copyLoop A bridge width forward count
          (if forward then (dest + elementSize width) % 2 ^ 64
            else (dest + 2 ^ 64 - elementSize width) % 2 ^ 64)
          (if forward then (src + elementSize width) % 2 ^ 64
            else (src + 2 ^ 64 - elementSize width) % 2 ^ 64) memory := rfl

/-- Upwards, as long as no element is written before it is read. -/
theorem copyLoop_up {memory : Nat → Byte} (hcode : width < 3)
    (hdest : Window A bridge width dest count) (hsrc : Window A bridge width src count)
    (hapart : dest ≤ src ∨ src + count * elementSize width ≤ dest) :
    copyLoop A bridge width true count (dest % 2 ^ 64) (src % 2 ^ 64) memory =
      some (copied memory (dest + bridge.physicalMemoryBase) (src + bridge.physicalMemoryBase)
        (count * elementSize width)) := by
  have hbits := Arch.two_pow_bits_le A
  induction count generalizing dest src memory with
  | zero => simp [copyLoop_zero]
  | succ count ih =>
    have hd := hdest.first
    have hs := hsrc.first
    have hdlt : dest < 2 ^ 64 := by have := hd.below; have := hd.host; omega
    have hslt : src < 2 ^ 64 := by have := hs.below; have := hs.host; omega
    rw [Nat.succ_mul, Nat.add_comm _ (elementSize width)] at hapart ⊢
    rw [Nat.mod_eq_of_lt hdlt, Nat.mod_eq_of_lt hslt]
    rw [copyLoop_succ, copyElement_eq hcode hd hs, Option.bind_some]
    simp only [if_true]
    rw [ih hdest.tail hsrc.tail (by omega), Nat.add_right_comm dest, Nat.add_right_comm src,
      copied_append (by omega)]

theorem sub_wrapped {a b : Nat} (hle : b ≤ a) (hlt : a < 2 ^ 64) :
    (a + 2 ^ 64 - b) % 2 ^ 64 = a - b := by
  omega

/-- Downwards from the last element, likewise. -/
theorem copyLoop_down {memory : Nat → Byte} (hcode : width < 3)
    (hdest : Window A bridge width dest (count + 1)) (hsrc : Window A bridge width src (count + 1))
    (hapart : src ≤ dest ∨ dest + (count + 1) * elementSize width ≤ src) :
    copyLoop A bridge width false (count + 1) (dest + count * elementSize width)
        (src + count * elementSize width) memory =
      some (copied memory (dest + bridge.physicalMemoryBase) (src + bridge.physicalMemoryBase)
        ((count + 1) * elementSize width)) := by
  have hbits := Arch.two_pow_bits_le A
  induction count generalizing memory with
  | zero =>
    simp [copyLoop_succ, copyLoop_zero, copyElement_eq hcode hdest.first hsrc.first]
  | succ count ih =>
    have hd := hdest.last
    have hs := hsrc.last
    have hdlt := hd.below
    have hslt := hs.below
    have hhost := hs.host
    rw [copyLoop_succ, copyElement_eq hcode hd hs, Option.bind_some]
    simp only [Bool.false_eq_true, if_false]
    have hsplit : (count + 1) * elementSize width = count * elementSize width + elementSize width :=
      Nat.succ_mul _ _
    have hback (a : Nat) : a + (count + 1) * elementSize width - elementSize width =
        a + count * elementSize width := by omega
    rw [Nat.succ_mul] at hapart
    rw [sub_wrapped (by omega) (by omega), sub_wrapped (by omega) (by omega), hback, hback,
      ih hdest.init hsrc.init (by omega), Nat.add_right_comm dest, Nat.add_right_comm src,
      copied_prepend (by omega), ← Nat.succ_mul]

theorem copyMem_eq {memory : Nat → Byte} (hcode : width < 3)
    (hdest : Window A bridge width dest count) (hsrc : Window A bridge width src count) :
    copyMem A bridge width dest src count memory =
      some (copied memory (dest + bridge.physicalMemoryBase) (src + bridge.physicalMemoryBase)
        (count * elementSize width)) := by
  have hbits := Arch.two_pow_bits_le A
  have hd := hdest.below
  have hs := hsrc.below
  have hhost := hdest.host
  rw [copyMem, if_neg (by omega)]
  by_cases hsame : dest = src
  · rw [if_pos hsame, hsame, copied_self]
  rw [if_neg hsame]
  dsimp only
  rw [Nat.mod_eq_of_lt (by omega : count * elementSize width < 2 ^ A.bits)]
  cases count with
  | zero =>
    rw [if_neg (by omega)]
    simp [copyLoop_zero]
  | succ count =>
    have hdlt := hdest.first.below
    have hslt := hsrc.first.below
    have hsize := elementSize_pos width
    by_cases hover : src < dest ∧ dest < (src + (count + 1) * elementSize width) % 2 ^ 64
    · have hone : A.sub (count + 1) 1 = count := by
        have hle : count + 1 ≤ (count + 1) * elementSize width := Nat.le_mul_of_pos_right _ hsize
        rw [Arch.sub, (by omega : count + 1 + 2 ^ A.bits - 1 = count + 2 ^ A.bits),
          Nat.add_mod_right, Nat.mod_eq_of_lt (by omega)]
      rw [if_pos hover, hone]
      rw [Nat.succ_mul] at hd hs
      rw [Nat.mod_eq_of_lt (by omega : count * elementSize width < 2 ^ A.bits),
        Nat.mod_eq_of_lt (by omega : dest + count * elementSize width < 2 ^ 64),
        Nat.mod_eq_of_lt (by omega : src + count * elementSize width < 2 ^ 64),
        copyLoop_down hcode hdest hsrc (.inl hover.1.le)]
    · have hapart : dest ≤ src ∨ src + (count + 1) * elementSize width ≤ dest := by
        by_contra hnot
        refine hover ⟨by omega, ?_⟩
        rw [Nat.mod_eq_of_lt (by omega)]
        omega
      have hloop := @copyLoop_up _ _ _ _ _ _ memory hcode hdest hsrc hapart
      rw [Nat.mod_eq_of_lt (by omega : dest < 2 ^ 64), Nat.mod_eq_of_lt (by omega : src < 2 ^ 64)]
        at hloop
      rw [if_neg hover, hloop]

/-! ## Main result -/

/-- The law holds for each transfer through memory and each copy, and through the ports and the
registers exactly where the two strides and the loads agree with it. -/
theorem followsLaw_iff (A : Arch) (bridge : Bridge) (request : Request)
    (h : request.Valid A bridge) : request.FollowsLaw A bridge ↔ request.Suits := by
  cases request with
  | mem direction width address count buffer =>
    obtain ⟨haimed, hbase, hlimit⟩ := h
    cases direction with
    | read => simp [Request.FollowsLaw, Request.Suits, memRead_eq haimed hbase hlimit]
    | write => simp [Request.FollowsLaw, Request.Suits, memWrite_eq haimed hbase hlimit]
  | io direction width address count buffer =>
    obtain ⟨rfl, haimed, hsmall, hports, hrange⟩ := h
    simp only [Request.FollowsLaw, Request.Suits]
    rw [ioRW_eq haimed hsmall hports hrange, Option.some_inj, map_touch_iff]
  | pci direction width register count buffer =>
    obtain ⟨rfl, haimed, _, hroom, hwhole⟩ := h
    exact pciRW_eq_iff haimed hroom hwhole
  | copy width dest src count =>
    obtain ⟨hcode, hd, hs, hdbase, hsbase, hdlimit, hslimit, hhost⟩ := h
    have hwindow : Window A bridge width dest count := ⟨hd, hdbase, hdlimit, hhost⟩
    have hwindow' : Window A bridge width src count := ⟨hs, hsbase, hslimit, hhost⟩
    have hcopy (memory : Nat → Byte) := @copyMem_eq _ _ _ _ _ _ memory hcode hwindow hwindow'
    simp [Request.FollowsLaw, Request.Suits, hcopy]

/-- A bridge with one window of each kind. -/
def smallBridge : Bridge := ⟨0x1000, 0x1fff, 0x100, 0x1ff, 0⟩

theorem followsLaw_iff_overlap :
    (Request.copy 2 0x1004 0x1000 8).FollowsLaw .efi64 smallBridge ↔
      (Request.copy 2 0x1004 0x1000 8).Suits :=
  followsLaw_iff .efi64 smallBridge (.copy 2 0x1004 0x1000 8) (by
    simp [Request.Valid, smallBridge, elementSize, Arch.bits])

end EfiCore.Pci
