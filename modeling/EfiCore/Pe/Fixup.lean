import EfiCore.Lib.Memory
import EfiCore.Types

/-! # Fixups

What `LoadPeRelocate` and `ConvertPeImage` of `pe.c` do at one entry of the relocation directory,
with their extensions in `pe_ex.c`: those of EFI32 know no further type, those of EFI64 the types of
IA-64.  The first pass applies the fixups and logs the values that it leaves; the second applies them
to another difference where the value is still the one in the log.

Memory is that of the host, byte by byte.
-/

namespace EfiCore.Pe

open EfiCore.Lib

abbrev Memory := Nat → Byte

/-- `IMAGE_REL_BASED_*` -/
def imageRelBasedAbsolute : Nat := 0
def imageRelBasedHigh : Nat := 1
def imageRelBasedLow : Nat := 2
def imageRelBasedHighLow : Nat := 3
def imageRelBasedHighAdj : Nat := 4
def imageRelBasedIa64Imm64 : Nat := 9
def imageRelBasedDir64 : Nat := 10

section Words

variable (m : Memory) (addr : Nat)

def u16 : BitVec 16 := BitVec.ofNat 16 (numAt m addr 2)

def u32 : BitVec 32 := BitVec.ofNat 32 (numAt m addr 4)

def u64 : BitVec 64 := BitVec.ofNat 64 (numAt m addr 8)

def put16 (x : BitVec 16) : Memory := putNum m addr 2 x.toNat

def put32 (x : BitVec 32) : Memory := putNum m addr 4 x.toNat

def put64 (x : BitVec 64) : Memory := putNum m addr 8 x.toNat

end Words

/-- `ALIGN_POINTER (p, s)` -/
def alignPointer (A : Arch) (p s : Nat) : Nat := A.add p (A.sub s p % s)

/-! ## The immediate of `movl` -/

/-- A part of the immediate: the word of the bundle, the bits there, and those of the value. -/
structure Imm64Part where
  instWord : Nat
  size : Nat
  instWordPos : Nat
  valPos : Nat

def imm7B : Imm64Part := ⟨3, 7, 4, 0⟩
def imm9D : Imm64Part := ⟨3, 9, 18, 7⟩
def imm5C : Imm64Part := ⟨3, 5, 13, 16⟩
def immIC : Imm64Part := ⟨3, 1, 12, 21⟩
def imm41a : Imm64Part := ⟨1, 10, 14, 22⟩
def imm41b : Imm64Part := ⟨1, 8, 24, 32⟩
def imm41c : Imm64Part := ⟨2, 23, 0, 40⟩
def immSign : Imm64Part := ⟨3, 1, 27, 63⟩

/-- `(1 << Size) - 1` -/
def Imm64Part.mask (p : Imm64Part) : BitVec 64 := 1#64 <<< p.size - 1#64

/-- `EXT_IMM64` -/
def extImm64 (m : Memory) (bundle : Nat) (value : BitVec 64) (p : Imm64Part) : BitVec 64 :=
  value ||| (((u32 m (bundle + 4 * p.instWord) >>> p.instWordPos).setWidth 64 &&& p.mask)
    <<< p.valPos)

/-- `INS_IMM64` -/
def insImm64 (value : BitVec 64) (bundle : Nat) (m : Memory) (p : Imm64Part) : Memory :=
  let word := u32 m (bundle + 4 * p.instWord)
  put32 m (bundle + 4 * p.instWord)
    ((word &&& ~~~(p.mask.setWidth 32 <<< p.instWordPos)) |||
      (((value >>> p.valPos) &&& p.mask).setWidth 32 <<< p.instWordPos))

/-- The lower 32 bits of the immediate are extracted. -/
def extracted (m : Memory) (bundle : Nat) : BitVec 64 :=
  [imm7B, imm9D, imm5C, immIC, imm41a].foldl (extImm64 m bundle) 0

def inserted (m : Memory) (bundle : Nat) (value : BitVec 64) : Memory :=
  [imm7B, imm9D, imm5C, immIC, imm41a, imm41b, imm41c, immSign].foldl (insImm64 value bundle) m

/-- `Fixup & ~15` -/
def bundleOf (fixup : Nat) : Nat := fixup / 16 * 16

/-! ## One entry -/

/-- Memory, and the cursor in the log. -/
structure Fixed where
  memory : Memory
  fixupData : Nat

variable (A : Arch)

/-- `LoadPeRelocate_Ex`. It is empty for `EFI_UNSUPPORTED`. -/
def loadPeRelocateEx (type fixup : Nat) (adjust : BitVec 64) (s : Fixed) : Option Fixed :=
  match A with
  | .efi32 => none
  | .efi64 =>
    if type = imageRelBasedDir64 then
      let m := put64 s.memory fixup (u64 s.memory fixup + adjust)
      let fixupData := alignPointer .efi64 s.fixupData 8
      some ⟨put64 m fixupData (u64 m fixup), Arch.efi64.add fixupData 8⟩
    else if type = imageRelBasedIa64Imm64 then
      let fixup := bundleOf fixup
      let m := inserted s.memory fixup (extracted s.memory fixup + adjust)
      let fixupData := alignPointer .efi64 s.fixupData 8
      some ⟨put64 m fixupData (u64 m fixup), Arch.efi64.add fixupData 8⟩
    else none

/-- The `switch` of `LoadPeRelocate`. -/
def loadFixup (type fixup : Nat) (adjust : BitVec 64) (s : Fixed) : Option Fixed :=
  if type = imageRelBasedAbsolute then some s
  else if type = imageRelBasedHigh then
    -- the value is shifted out of its 16 bits
    let value := ((u16 s.memory fixup).setWidth 32 <<< 16 +
      (adjust.setWidth 16).setWidth 32).setWidth 16
    let m := put16 s.memory fixup value
    some ⟨put16 m s.fixupData (u16 m fixup), A.add s.fixupData 2⟩
  else if type = imageRelBasedLow then
    let m := put16 s.memory fixup (u16 s.memory fixup + adjust.setWidth 16)
    some ⟨put16 m s.fixupData (u16 m fixup), A.add s.fixupData 2⟩
  else if type = imageRelBasedHighLow then
    let m := put32 s.memory fixup (u32 s.memory fixup + adjust.setWidth 32)
    let fixupData := alignPointer A s.fixupData 4
    some ⟨put32 m fixupData (u32 m fixup), A.add fixupData 4⟩
  else if type = imageRelBasedHighAdj then some s
  else loadPeRelocateEx A type fixup adjust s

/-- `ConvertPeImage_Ex` -/
def convertPeImageEx (type fixup : Nat) (adjust : BitVec 64) (s : Fixed) : Option Fixed :=
  match A with
  | .efi32 => none
  | .efi64 =>
    let fixupData := alignPointer .efi64 s.fixupData 8
    if type = imageRelBasedDir64 then
      let m := if u64 s.memory fixupData = u64 s.memory fixup then
          put64 s.memory fixup (u64 s.memory fixup + adjust)
        else s.memory
      some ⟨m, Arch.efi64.add fixupData 8⟩
    else if type = imageRelBasedIa64Imm64 then
      let m := if u64 s.memory fixupData = u64 s.memory fixup then
          -- `F64` is not rounded to the bundle
          let bundle := bundleOf fixup
          let m := inserted s.memory bundle (extracted s.memory bundle + adjust)
          put64 m fixupData (u64 m fixup)
        else s.memory
      some ⟨m, Arch.efi64.add fixupData 8⟩
    else none

/-- The `switch` of `ConvertPeImage`. -/
def convertFixup (type fixup : Nat) (adjust : BitVec 64) (s : Fixed) : Option Fixed :=
  if type = imageRelBasedAbsolute then some s
  else if type = imageRelBasedHigh then
    let value := ((u16 s.memory fixup).setWidth 32 <<< 16 +
      (adjust.setWidth 16).setWidth 32).setWidth 16
    let m := if u16 s.memory s.fixupData = u16 s.memory fixup then put16 s.memory fixup value
      else s.memory
    some ⟨m, A.add s.fixupData 2⟩
  else if type = imageRelBasedLow then
    let m := if u16 s.memory s.fixupData = u16 s.memory fixup then
        put16 s.memory fixup (u16 s.memory fixup + adjust.setWidth 16)
      else s.memory
    some ⟨m, A.add s.fixupData 2⟩
  else if type = imageRelBasedHighLow then
    let fixupData := alignPointer A s.fixupData 4
    let m := if u32 s.memory fixupData = u32 s.memory fixup then
        put32 s.memory fixup (u32 s.memory fixup + adjust.setWidth 32)
      else s.memory
    some ⟨m, A.add fixupData 4⟩
  else if type = imageRelBasedHighAdj then some s
  else convertPeImageEx A type fixup adjust s

end EfiCore.Pe
