import EfiCore.Lib.Memory
import EfiCore.Types

/-! # Transfers of the root bridge (`PcatPciRootBridgeIo.c`, `Ia32/PcatIo.c`)

A transfer is the list of its accesses: which address of the device, which bytes of the caller's
buffer. Widths are the codes of the protocol, four sizes in each of three classes.
-/

namespace EfiCore.Pci

open EfiCore.Lib

/-- `EfiPciWidthMaximum`: a width is a code below it. -/
abbrev widthMaximum : Nat := 12

def IsPlain (width : Nat) : Prop := width ≤ 3
def IsFifo (width : Nat) : Prop := 4 ≤ width ∧ width ≤ 7
def IsFill (width : Nat) : Prop := 8 ≤ width ∧ width ≤ 11

instance decidableIsPlain (width : Nat) : Decidable (IsPlain width) :=
  inferInstanceAs (Decidable (width ≤ 3))

instance decidableIsFifo (width : Nat) : Decidable (IsFifo width) :=
  inferInstanceAs (Decidable (4 ≤ width ∧ width ≤ 7))

instance decidableIsFill (width : Nat) : Decidable (IsFill width) :=
  inferInstanceAs (Decidable (8 ≤ width ∧ width ≤ 11))

/-- Bytes of an element, `1 << (Width & 0x03)`. -/
def elementSize (width : Nat) : Nat := 2 ^ (width % 4)

/-- What the functions use of `PCAT_PCI_ROOT_BRIDGE_INSTANCE`. -/
structure Bridge where
  memBase : Nat
  memLimit : Nat
  ioBase : Nat
  ioLimit : Nat
  physicalMemoryBase : Nat

/-- `PciAddress` and `PciData` -/
abbrev pciAddressPort : Nat := 0xcf8
abbrev pciDataPort : Nat := 0xcfc

/-- One element: an access to the device of `size` bytes, and the bytes of the buffer that are
read or written for it. -/
structure Access where
  device : Nat
  size : Nat
  buffer : Nat
  touched : Nat
  deriving DecidableEq

inductive Direction where
  | read
  | write
  deriving DecidableEq

/-- The loops, with one stride for each pointer. -/
def moves (A : Arch) (inStride outStride : Nat) : Nat → Nat → Nat → List (Nat × Nat)
  | 0, _, _ => []
  | count + 1, source, target =>
    (source, target) ::
      moves A inStride outStride count (A.add source inStride) (A.add target outStride)

/-- `PcatRootBridgeIoMemRW`: the values of `In` and `Out` at each `*In = *Out`. -/
def memRW (A : Arch) (width : Nat) (count : Nat) (inStrideFlag : Bool) (source : Nat)
    (outStrideFlag : Bool) (target : Nat) : Option (List (Nat × Nat)) :=
  let stride := elementSize width
  if width % 4 = 3 then none
  else
    some (moves A (if inStrideFlag then stride else 0) (if outStrideFlag then stride else 0) count
      source target)

/-- The checks of `PcatRootBridgeIoMemRead` and `PcatRootBridgeIoMemWrite`, and `Out` or `In`. -/
def memAddress (A : Arch) (bridge : Bridge) (width : Nat) (address buffer : Nat) : Option Nat :=
  if buffer = 0 then none
  else if address < bridge.memBase ∨ bridge.memLimit < address then none
  else if address % elementSize width ≠ 0 then none
  else some ((address + bridge.physicalMemoryBase) % 2 ^ 64 % 2 ^ A.bits)

def memRead (A : Arch) (bridge : Bridge) (width : Nat) (address count buffer : Nat) :
    Option (List Access) :=
  (memAddress A bridge width address buffer).bind fun host =>
    let accesses (l : List (Nat × Nat)) : List Access :=
      l.map fun p => ⟨p.2, elementSize width, p.1, elementSize width⟩
    if IsPlain width then (memRW A width count true buffer true host).map accesses
    else if IsFifo width then (memRW A width count true buffer false host).map accesses
    else if IsFill width then (memRW A width count false buffer true host).map accesses
    else none

def memWrite (A : Arch) (bridge : Bridge) (width : Nat) (address count buffer : Nat) :
    Option (List Access) :=
  (memAddress A bridge width address buffer).bind fun host =>
    let accesses (l : List (Nat × Nat)) : List Access :=
      l.map fun p => ⟨p.1, elementSize width, p.2, elementSize width⟩
    if IsPlain width then (memRW A width count true host true buffer).map accesses
    else if IsFifo width then (memRW A width count false host true buffer).map accesses
    else if IsFill width then (memRW A width count true host false buffer).map accesses
    else none

/-! ## Ports and registers of IA-32 (`Ia32/PcatIo.c`) -/

/-- `dx`, which the instructions take the port from. -/
def portOf (address : Nat) : Nat := address % 2 ^ 16

/-- `PcatRootBridgeIoIoRead` and `PcatRootBridgeIoIoWrite`. A write loads a `UINT32` from the
buffer whatever the width is. -/
def ioRW (bridge : Bridge) (direction : Direction) (width : Nat)
    (userAddress count buffer : Nat) : Option (List Access) :=
  let address := userAddress % 2 ^ Arch.efi32.bits
  if buffer = 0 then none
  else if (address < bridge.ioBase ∨ bridge.ioLimit < address) ∧
      address / 4 * 4 ≠ pciAddressPort ∧ address / 4 * 4 ≠ pciDataPort then none
  else if widthMaximum ≤ width then none
  else if address % elementSize width ≠ 0 then none
  else if width % 4 = 3 then none
  else
    let inStride := if IsFifo width then 0 else elementSize width
    let outStride := if IsFill width then 0 else elementSize width
    some ((moves .efi32 inStride outStride count address buffer).map fun p =>
      ⟨portOf p.1, elementSize width, p.2,
        match direction with
        | .read => elementSize width
        | .write => 4⟩)

/-- The loop of `PcatRootBridgeIoPciRW`. The data port is the place of the byte in the register
that `CF8` selects; the status of the access to it is not looked at. -/
def pciLoop (bridge : Bridge) (direction : Direction) (width : Nat) (stride : Nat) :
    Nat → Nat → Nat → Nat → List Access
  | 0, _, _, _ => []
  | count + 1, reg, pciDataStride, buffer =>
    let selected := reg / 4 * 4
    let cycle := (ioRW bridge direction width (pciDataPort + pciDataStride) 1 buffer).getD []
    cycle.map (fun a => { a with device := selected + (a.device - pciDataPort) }) ++
      pciLoop bridge direction width stride count
        (if IsPlain width then (reg + stride) % 256 else reg) ((pciDataStride + stride) % 4)
        (Arch.efi32.add buffer stride)

/-- `PcatRootBridgeIoPciRead` and `PcatRootBridgeIoPciWrite` on the registers of one function. -/
def pciRW (bridge : Bridge) (direction : Direction) (width : Nat)
    (register count buffer : Nat) : Option (List Access) :=
  if buffer = 0 then none
  else if widthMaximum ≤ width then none
  else if 3 ≤ width % 4 then none
  else
    some (pciLoop bridge direction width (2 ^ width) count register (register % 4) buffer)

/-! ## Copies -/

/-- One element of `PcatRootBridgeIoCopyMem`, through `Result`. -/
def copyElement (A : Arch) (bridge : Bridge) (width : Nat) (dest src : Nat)
    (memory : Nat → Byte) : Option (Nat → Byte) :=
  -- `Result` is on the stack and not `NULL`
  (memAddress A bridge width src 1).bind fun from' =>
    (memAddress A bridge width dest 1).bind fun to' =>
      if width % 4 = 3 then none
      else some (putBytes memory to' (bytesAt memory from' (elementSize width)))

/-- Its loop, with the addresses in 64 bits. -/
def copyLoop (A : Arch) (bridge : Bridge) (width : Nat) (forward : Bool) :
    Nat → Nat → Nat → (Nat → Byte) → Option (Nat → Byte)
  | 0, _, _, memory => some memory
  | count + 1, dest, src, memory =>
    let stride := elementSize width
    let next (address : Nat) : Nat :=
      if forward then (address + stride) % 2 ^ 64 else (address + 2 ^ 64 - stride) % 2 ^ 64
    (copyElement A bridge width dest src memory).bind fun memory =>
      copyLoop A bridge width forward count (next dest) (next src) memory

/-- `PcatRootBridgeIoCopyMem` -/
def copyMem (A : Arch) (bridge : Bridge) (width : Nat) (dest src count : Nat)
    (memory : Nat → Byte) : Option (Nat → Byte) :=
  if 3 < width then none
  else if dest = src then some memory
  else
    let stride := elementSize width
    if src < dest ∧ dest < (src + count * stride % 2 ^ A.bits) % 2 ^ 64 then
      let last := A.sub count 1 * stride % 2 ^ A.bits
      copyLoop A bridge width false count ((dest + last) % 2 ^ 64) ((src + last) % 2 ^ 64) memory
    else copyLoop A bridge width true count dest src memory

end EfiCore.Pci
