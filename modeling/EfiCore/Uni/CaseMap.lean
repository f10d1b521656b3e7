import Mathlib.Data.BitVec

/-! # Characters and the English case map (`PlInitializeUnicodeStringDevice`) -/

namespace EfiCore.Uni

abbrev Char16 := BitVec 16

/-- A character of the source's own text. -/
def ch (c : Char) : Char16 := BitVec.ofNat 16 c.toNat

/-- A string in memory: its characters up to the terminator. -/
structure Text where
  chars : List Char16
  noNul : 0#16 ∉ chars

/-- The characters that `PlInitializeUnicodeStringDevice` maps to another one. -/
def HasUpper (index : Nat) : Prop :=
  ('a'.toNat ≤ index ∧ index ≤ 'z'.toNat) ∨ (0xe0 ≤ index ∧ index ≤ 0xf6) ∨
    (0xf8 ≤ index ∧ index ≤ 0xfe)

instance (index : Nat) : Decidable (HasUpper index) := by
  unfold HasUpper
  infer_instance

/-- One turn of the loop that fills `EngUpperMap`, an array of `CHAR8`. -/
def fillUpper (map : Nat → BitVec 8) (index : Nat) : Nat → BitVec 8 :=
  let map := Function.update map index (BitVec.ofNat 8 index)
  if HasUpper index then
    let index2 := index - 0x20
    Function.update map index (BitVec.ofNat 8 index2)
  else map

def engUpperMap : Nat → BitVec 8 := (List.range 0x100).foldl fillUpper fun _ => 0

/-- `ToUpper` -/
def toUpper (a : Char16) : Char16 :=
  if a ≤ 0xff then (engUpperMap a.toNat).setWidth 16 else a

/-! ## What the loop leaves in the map -/

theorem fillUpper_self (map : Nat → BitVec 8) (index : Nat) :
    fillUpper map index index =
      BitVec.ofNat 8 (if HasUpper index then index - 0x20 else index) := by
  unfold fillUpper
  split <;> simp

theorem fillUpper_of_ne {index other : Nat} (hne : other ≠ index) (map : Nat → BitVec 8) :
    fillUpper map index other = map other := by
  unfold fillUpper
  split <;> simp [hne]

theorem foldl_fillUpper (map : Nat → BitVec 8) {index count : Nat} (hindex : index < count) :
    (List.range count).foldl fillUpper map index =
      BitVec.ofNat 8 (if HasUpper index then index - 0x20 else index) := by
  induction count with
  | zero => omega
  | succ count ih =>
    rw [List.range_succ, List.foldl_append]
    by_cases hlast : index = count
    · subst hlast
      exact fillUpper_self _ _
    · have hbefore : index < count := by omega
      simpa [fillUpper_of_ne hlast] using ih hbefore

theorem engUpperMap_apply {index : Nat} (hindex : index < 0x100) :
    engUpperMap index = BitVec.ofNat 8 (if HasUpper index then index - 0x20 else index) :=
  foldl_fillUpper _ hindex

/-- Only the terminator is mapped to the terminator. -/
theorem toUpper_eq_zero {a : Char16} : toUpper a = 0#16 ↔ a = 0#16 := by
  unfold toUpper
  split
  case isFalse => rfl
  case isTrue hsmall =>
    have hindex : a.toNat < 0x100 := by
      have : a.toNat ≤ 0xff := hsmall
      omega
    rw [engUpperMap_apply hindex]
    split
    case isTrue hupper =>
      have hlow : 0x61 ≤ a.toNat := by
        rcases hupper with h | h | h
        · exact h.1
        · omega
        · omega
      constructor
      · intro hzero
        have := congrArg BitVec.toNat hzero
        simp at this
        omega
      · intro hzero
        subst hzero
        simp at hlow
    case isFalse =>
      constructor
      · intro hzero
        have := congrArg BitVec.toNat hzero
        simp at this
        exact BitVec.eq_of_toNat_eq (by simp; omega)
      · rintro rfl
        rfl

end EfiCore.Uni
