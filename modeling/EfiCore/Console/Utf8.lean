import EfiCore.Console.Fifo
import Mathlib.Tactic.IntervalCases

/-! # UTF-8 input (`vtutf8.c`) -/

namespace EfiCore.Console

open EfiCore.Lib
open EfiCore.Uni (Char16)

/-- `UTF8_CHAR`, a union of the bytes of one, two and three. -/
structure Utf8Char where
  byte0 : Byte
  byte1 : Byte
  byte2 : Byte
  deriving DecidableEq

def Utf8Char.set (u : Utf8Char) (index : Nat) (b : Byte) : Utf8Char :=
  match index with
  | 0 => { u with byte0 := b }
  | 1 => { u with byte1 := b }
  | _ => { u with byte2 := b }

/-- A character of two bytes of its own. -/
def joinBytes (unicodeByte0 unicodeByte1 : Byte) : Char16 :=
  unicodeByte0.setWidth 16 ||| unicodeByte1.setWidth 16 <<< 8

def utf8ToUnicode (u : Utf8Char) (validBytes : Nat) : Char16 :=
  match validBytes with
  | 1 => u.byte0.setWidth 16
  | 2 => joinBytes (u.byte1 <<< 6 ||| u.byte0 &&& 0x3f) (u.byte1 >>> 2 &&& 0x07)
  | 3 => joinBytes (u.byte1 <<< 6 ||| u.byte0 &&& 0x3f)
      (u.byte2 <<< 4 ||| u.byte1 >>> 2 &&& 0x0f)
  | _ => 0

/-- `UnicodeToUtf8`: the valid bytes of the union, in their order. -/
def unicodeToUtf8 (unicode : Char16) : List Byte :=
  let unicodeByte0 := unicode.setWidth 8
  let unicodeByte1 := (unicode >>> 8).setWidth 8
  let middle := unicodeByte1 <<< 2 + unicodeByte0 >>> 6
  if unicode < 0x0080 then [unicodeByte0 &&& 0x7f]
  else if unicode < 0x0800 then [(middle &&& 0x1f) + 0xc0, (unicodeByte0 &&& 0x3f) + 0x80]
  else [(unicodeByte1 >>> 4 &&& 0x0f) + 0xe0, (middle &&& 0x3f) + 0x80,
    (unicodeByte0 &&& 0x3f) + 0x80]

/-! The tests of the switch in `GetOneValidUtf8Char`. -/

def Single (b : Byte) : Prop := b &&& 0x80 = 0
def LeadTwo (b : Byte) : Prop := b &&& 0xe0 = 0xc0
def LeadThree (b : Byte) : Prop := b &&& 0xf0 = 0xe0
def Continuation (b : Byte) : Prop := b &&& 0xc0 = 0x80

instance decidableSingle (b : Byte) : Decidable (Single b) :=
  inferInstanceAs (Decidable (b &&& 0x80 = 0))

instance decidableLeadTwo (b : Byte) : Decidable (LeadTwo b) :=
  inferInstanceAs (Decidable (b &&& 0xe0 = 0xc0))

instance decidableLeadThree (b : Byte) : Decidable (LeadThree b) :=
  inferInstanceAs (Decidable (b &&& 0xf0 = 0xe0))

instance decidableContinuation (b : Byte) : Decidable (Continuation b) :=
  inferInstanceAs (Decidable (b &&& 0xc0 = 0x80))

/-- The variables of `GetOneValidUtf8Char`. -/
structure Fetch where
  utf8Char : Utf8Char
  validBytes : Nat
  index : Nat
  fetchFlag : Bool

/-- As `GetOneValidUtf8Char` starts; `*Utf8Char` is its caller's. -/
def Fetch.start (utf8Char : Utf8Char) : Fetch := ⟨utf8Char, 0, 0, true⟩

/-- The switch of `GetOneValidUtf8Char`, for the byte just removed. -/
def Fetch.byte (s : Fetch) (temp : Byte) : Fetch :=
  match s.validBytes with
  | 0 =>
    if Single temp then
      { s with validBytes := 1, utf8Char := s.utf8Char.set 0 temp, fetchFlag := false }
    else if LeadTwo temp then
      { s with validBytes := 2, utf8Char := s.utf8Char.set 1 temp }
    else if LeadThree temp then
      { s with validBytes := 3, utf8Char := s.utf8Char.set 2 temp, index := s.index + 1 }
    else { s with validBytes := 0 }
  | 2 =>
    if Continuation temp then
      { s with utf8Char := s.utf8Char.set 0 temp, fetchFlag := false }
    else { s with validBytes := 0 }
  | 3 =>
    if Continuation temp then
      { s with
        utf8Char := s.utf8Char.set (2 - s.index) temp
        index := s.index + 1
        fetchFlag := s.fetchFlag && s.index + 1 != 3 }
    else { s with validBytes := 0, index := 0 }
  | _ => s

/-- The loop of `GetOneValidUtf8Char`, in at most `fuel` turns. -/
def getOneLoop : Nat → Fifo Byte → Fetch → Fifo Byte × Fetch
  | 0, raw, s => (raw, s)
  | fuel + 1, raw, s =>
    match rawFiFoRemoveOneKey raw with
    | (none, raw) => (raw, s)
    | (some temp, raw) =>
      let s := s.byte temp
      if s.fetchFlag then getOneLoop fuel raw s else (raw, s)

def getOneValidUtf8Char (fuel : Nat) (raw : Fifo Byte) (utf8Char : Utf8Char) :
    Fifo Byte × Fetch :=
  getOneLoop fuel raw (.start utf8Char)

/-- `VTUTF8RawDataToUnicode`, in at most `fuel` turns. `utf8Char` is a local variable, which
holds anything at the start. -/
def vtutf8RawDataToUnicode : Nat → Fifo Byte → Fifo Char16 → Utf8Char → Fifo Byte × Fifo Char16
  | 0, raw, unicode, _ => (raw, unicode)
  | fuel + 1, raw, unicode, utf8Char =>
    if raw.isEmpty then (raw, unicode)
    else
      let (raw, s) := getOneValidUtf8Char (fuel + 1) raw utf8Char
      if s.validBytes < 1 ∨ s.validBytes > 3 then
        vtutf8RawDataToUnicode fuel raw unicode s.utf8Char
      else
        vtutf8RawDataToUnicode fuel raw
          (unicodeFiFoInsertOneKey unicode (utf8ToUnicode s.utf8Char s.validBytes)) s.utf8Char

/-! ## The bytes of a character -/

/-- Not the first byte of any sequence. -/
def Stray (b : Byte) : Prop := ¬Single b ∧ ¬LeadTwo b ∧ ¬LeadThree b

theorem LeadTwo.not_single : ∀ {b : Byte}, LeadTwo b → ¬Single b := by decide

theorem LeadThree.not_single : ∀ {b : Byte}, LeadThree b → ¬Single b := by decide

theorem LeadThree.not_two : ∀ {b : Byte}, LeadThree b → ¬LeadTwo b := by decide

theorem single_bits : ∀ b : Byte, Single (b &&& 0x7f) := by decide

theorem leadTwo_bits : ∀ b : Byte, LeadTwo ((b &&& 0x1f) + 0xc0) ∧
    ((b &&& 0x1f) + 0xc0) <<< 6 = b <<< 6 ∧
    ((b &&& 0x1f) + 0xc0) >>> 2 &&& (0x07 : Byte) = b >>> 2 &&& 0x07 := by
  decide

theorem leadThree_bits : ∀ b : Byte, LeadThree ((b &&& 0x0f) + 0xe0) ∧
    ((b &&& 0x0f) + 0xe0) <<< 4 = b <<< 4 := by
  decide

theorem continuation_bits : ∀ b : Byte, Continuation ((b &&& 0x3f) + 0x80) ∧
    ((b &&& 0x3f) + 0x80) &&& 0x3f = b &&& 0x3f ∧
    ((b &&& 0x3f) + 0x80) <<< 6 = b <<< 6 ∧
    ((b &&& 0x3f) + 0x80) >>> 2 &&& (0x0f : Byte) = b >>> 2 &&& 0x0f := by
  decide

section Bits

variable (c : Char16)

/-- The six bits in the middle, which `UnicodeToUtf8` takes from both bytes. -/
theorem middle_eq : ((c >>> 8).setWidth 8 : Byte) <<< 2 + (c.setWidth 8 : Byte) >>> 6 =
    ((c >>> 6).setWidth 8 : Byte) := by
  rw [BitVec.add_eq_or_of_and_eq_zero]
  · ext i hi
    interval_cases i <;> simp
  · ext i hi
    interval_cases i <;> simp

theorem join_three :
    joinBytes ((c >>> 6).setWidth 8 <<< 6 ||| c.setWidth 8 &&& 0x3f)
      ((c >>> 8).setWidth 8 >>> 4 <<< 4 ||| (c >>> 6).setWidth 8 >>> 2 &&& 0x0f) = c := by
  ext i hi
  rw [← BitVec.getLsbD_eq_getElem, ← BitVec.getLsbD_eq_getElem]
  interval_cases i <;> simp [joinBytes]

variable {c}

theorem getLsbD_of_lt {k i : Nat} (h : c.toNat < 2 ^ k) (hi : k ≤ i) : c.getLsbD i = false :=
  Nat.testBit_lt_two_pow (Nat.lt_of_lt_of_le h (Nat.pow_le_pow_right (by decide) hi))

theorem join_one (h : c < 0x0080) : (c.setWidth 8 &&& 0x7f : Byte).setWidth 16 = c := by
  have hlt : c.toNat < 2 ^ 7 := h
  ext i hi
  rw [← BitVec.getLsbD_eq_getElem, ← BitVec.getLsbD_eq_getElem]
  by_cases hhigh : 7 ≤ i
  · rw [getLsbD_of_lt hlt hhigh]
    interval_cases i <;> simp
  · rw [not_le] at hhigh
    interval_cases i <;> simp

theorem join_two (h : c < 0x0800) :
    joinBytes ((c >>> 6).setWidth 8 <<< 6 ||| c.setWidth 8 &&& 0x3f)
      ((c >>> 6).setWidth 8 >>> 2 &&& 0x07) = c := by
  have hlt : c.toNat < 2 ^ 11 := h
  ext i hi
  rw [← BitVec.getLsbD_eq_getElem, ← BitVec.getLsbD_eq_getElem]
  by_cases hhigh : 11 ≤ i
  · rw [getLsbD_of_lt hlt hhigh]
    interval_cases i <;> simp [joinBytes]
  · rw [not_le] at hhigh
    interval_cases i <;> simp [joinBytes]

end Bits

/-- A sequence of one, two or three bytes that `Utf8ToUnicode` turns into `c`, when it is
stored as `GetOneValidUtf8Char` does. -/
inductive Encoding (c : Char16) : List Byte → Prop
  | one {a} (ha : Single a) (hc : ∀ u : Utf8Char, utf8ToUnicode (u.set 0 a) 1 = c) :
    Encoding c [a]
  | two {a b} (ha : LeadTwo a) (hb : Continuation b)
    (hc : ∀ u : Utf8Char, utf8ToUnicode ((u.set 1 a).set 0 b) 2 = c) : Encoding c [a, b]
  | three {a b d} (ha : LeadThree a) (hb : Continuation b) (hd : Continuation d)
    (hc : ∀ u : Utf8Char, utf8ToUnicode (((u.set 2 a).set 1 b).set 0 d) 3 = c) :
    Encoding c [a, b, d]

theorem unicodeToUtf8_encoding (c : Char16) : Encoding c (unicodeToUtf8 c) := by
  unfold unicodeToUtf8
  simp only [middle_eq]
  split
  case isTrue hc => exact .one (single_bits _) (fun _ => join_one hc)
  case isFalse =>
    obtain ⟨hcont, hlow, -, -⟩ := continuation_bits (c.setWidth 8)
    split
    case isTrue hc =>
      obtain ⟨hlead, hhigh, hthree⟩ := leadTwo_bits ((c >>> 6).setWidth 8)
      refine .two hlead hcont (fun _ => ?_)
      simp only [utf8ToUnicode, Utf8Char.set]
      rw [hlow, hhigh, hthree]
      exact join_two hc
    case isFalse =>
      obtain ⟨hlead, htop⟩ := leadThree_bits ((c >>> 8).setWidth 8 >>> 4)
      obtain ⟨hmiddle, -, hhigh, hfour⟩ := continuation_bits ((c >>> 6).setWidth 8)
      refine .three hlead hmiddle hcont (fun _ => ?_)
      simp only [utf8ToUnicode, Utf8Char.set]
      rw [hlow, htop, hhigh, hfour]
      exact join_three c

end EfiCore.Console
