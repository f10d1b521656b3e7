import Mathlib.Data.BitVec

/-! # Base types of the core

The sources switch between IA-32 (`EFI32`) and Itanium (`EFI64`); what differs for
this development is the width of `UINTN` and the sizes and alignments derived from it.
-/

namespace EfiCore

inductive Arch where
  | efi32
  | efi64
  deriving DecidableEq, Repr

/-- Bits of a `UINTN`. -/
def Arch.bits : Arch → Nat
  | .efi32 => 32
  | .efi64 => 64

abbrev Uintn (A : Arch) := BitVec A.bits

/-- `a + b` in a `UINTN`. -/
def Arch.add (A : Arch) (a b : Nat) : Nat := (a + b) % 2 ^ A.bits

/-- `a - b` in a `UINTN`. -/
def Arch.sub (A : Arch) (a b : Nat) : Nat := (a + 2 ^ A.bits - b) % 2 ^ A.bits

theorem Arch.two_pow_32_le (A : Arch) : 2 ^ 32 ≤ 2 ^ A.bits := by
  cases A <;> decide

theorem Arch.add_of_lt {A : Arch} {a b : Nat} (h : a + b < 2 ^ 32) : A.add a b = a + b := by
  have := A.two_pow_32_le
  rw [Arch.add, Nat.mod_eq_of_lt (by omega)]

theorem Arch.sub_of_le {A : Arch} {a b : Nat} (h : b ≤ a) (ha : a < 2 ^ 32) :
    A.sub a b = a - b := by
  have := A.two_pow_32_le
  have hwrap : a + 2 ^ A.bits - b = a - b + 2 ^ A.bits := by omega
  rw [Arch.sub, hwrap, Nat.add_mod_right, Nat.mod_eq_of_lt (by omega)]

/-- An `int` (32 bits, signed) converted to `UINTN`: sign extension. -/
def Arch.ofInt (A : Arch) (x : BitVec 32) : Uintn A := x.signExtend A.bits

/-- Bytes of a pointer. -/
def Arch.pointerSize : Arch → Nat
  | .efi32 => 4
  | .efi64 => 8

/-- Address of a block of pool; 0 is `NULL`. -/
abbrev Addr := Nat

/-- `EFI_GUID`; `CompareGuid` compares all 128 bits. -/
abbrev Guid := BitVec 128

/-- `EFI_STATUS`, the codes of `efierr.h` that have the error bit, and success. -/
inductive Status where
  | success
  | loadError
  | invalidParameter
  | unsupported
  | badBufferSize
  | bufferTooSmall
  | notReady
  | deviceError
  | writeProtected
  | outOfResources
  | volumeCorrupted
  | volumeFull
  | noMedia
  | mediaChanged
  | notFound
  | accessDenied
  | noResponse
  | noMapping
  | timeout
  | notStarted
  | alreadyStarted
  | aborted
  deriving DecidableEq, Repr

/-- `EFI_ERROR (Status)` -/
def Status.isError (status : Status) : Bool := status ≠ .success

/-- `if (EFI_ERROR (Status)) return Status;` and on with the next check. -/
def Status.andThen (status next : Status) : Status :=
  if status.isError then status else next

end EfiCore
