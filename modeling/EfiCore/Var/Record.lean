import EfiCore.Var.Io

/-! # Records

A record as it lies in a bank, with its pad, is a list of bytes that says itself where its
fields are.  `Record.info` is what the parser should find out about it.  A record is `Sized` when
its size field gives its length, and `Named` when the name of a record that is stored ends before
the state byte.
-/

namespace EfiCore.Var

open EfiCore.Lib

abbrev Record := List Byte

namespace Record

/-! ## Fields -/

def varSize (c : Record) : Nat := varSizeMask (leNat (slice c 0 2))

def stateByte (c : Record) : Byte := c.getD (c.varSize - 1) 0

/-- The state, in the sense of the source: inverted. -/
def state (c : Record) : Byte := c.stateByte ^^^ 0xFF

/-- Completely added, and not obsolete. -/
def stored (c : Record) : Bool := hasBits c.state varAdded && !hasBits c.state varObsolete

/-- The search for the end of the name that stays in the record. -/
def nameEnd (c : Record) : Except Fault (Option Nat) :=
  findNameEnd (c.varSize - 1) sizeofVariable (c.drop sizeofVariable)

/-- What a record at the offset `off` holds. -/
def fields (off : Nat) (c : Record) : Option VarFields :=
  if c.stored then
    match c.nameEnd with
    | .ok (some e) => some
        { attributes := BitVec.ofNat 32 (leNat (slice c 2 2))
          vendorGuid := BitVec.ofNat 128 (leNat (slice c 4 16))
          name := char16s (slice c sizeofVariable (e - sizeofVariable))
          nameSize := e - sizeofVariable + 2
          dataOffset := off + (e + 2)
          dataSize := c.varSize - 1 - (e + 2) }
    | _ => none
  else none

def info (off : Nat) (c : Record) : VarInfo where
  varOffset := off
  varSize := c.length
  nameOffset := off + sizeofVariable
  stateOffset := off + c.varSize - 1
  nextVarOffset := off + c.length
  state := if c.stored then c.state else varAdded ||| varObsoleteTransition ||| varObsolete
  fields := c.fields off

def valid (c : Record) : Bool := (c.fields 0).isSome

/-- The record with another state byte. -/
def withState (c : Record) (b : Byte) : Record := c.set (c.varSize - 1) b

structure Sized (c : Record) : Prop where
  marker : leNat (slice c 0 2) ≠ 0xFFFF
  large : sizeofVariable + 1 + 2 + 1 ≤ c.varSize
  length : c.length = c.varSize + padSize c.varSize

def Named (c : Record) : Prop :=
  c.stored = true → ∃ r, c.nameEnd = .ok r ∧ ∀ e, r = some e → e < c.varSize - 1

variable {c : Record} {off : Nat}

theorem isSome_fields (c : Record) (off : Nat) : (c.fields off).isSome = c.valid := by
  simp only [valid, fields]
  split
  · cases c.nameEnd with
    | error => rfl
    | ok r => cases r <;> rfl
  · rfl

theorem stored_of_valid (h : c.valid = true) : c.stored = true := by
  simp only [valid, fields] at h
  by_contra hnot
  rw [if_neg hnot] at h
  cases h

theorem varSize_lt (c : Record) : c.varSize < 0x1000 := Nat.mod_lt _ (by decide)

theorem Sized.varSize_le (h : c.Sized) : c.varSize ≤ c.length := by
  rw [h.length]
  exact Nat.le_add_right _ _

theorem Sized.large' (h : c.Sized) : 24 ≤ c.varSize := h.large

theorem Sized.length_le (h : c.Sized) : c.length ≤ c.varSize + 3 := by
  have hpad : padSize c.varSize < 4 := Nat.mod_lt _ (by decide)
  rw [h.length]
  omega

/-! ## Changing the state -/

@[simp] theorem length_withState (c : Record) (b : Byte) : (c.withState b).length = c.length :=
  List.length_set

theorem slice_withState {b : Byte} {n : Nat} (h : off + n < c.varSize) :
    slice (c.withState b) off n = slice c off n := by
  apply List.ext_getElem?
  intro i
  simp only [slice, List.getElem?_take, List.getElem?_drop, withState, List.getElem?_set]
  split
  · rw [if_neg (by omega)]
  · rfl

theorem varSize_withState (h : c.Sized) (b : Byte) : (c.withState b).varSize = c.varSize := by
  have := h.large'
  rw [varSize, slice_withState (by omega), varSize]

theorem Sized.withState (h : c.Sized) (b : Byte) : (c.withState b).Sized where
  marker := by
    have := h.large'
    rw [slice_withState (by omega)]
    exact h.marker
  large := by
    rw [varSize_withState h]
    exact h.large
  length := by
    rw [length_withState, varSize_withState h]
    exact h.length

theorem stateByte_withState (h : c.Sized) (b : Byte) : (c.withState b).stateByte = b := by
  have hlen := h.varSize_le
  have hlarge := h.large'
  rw [stateByte, varSize_withState h, Record.withState, List.getD_eq_getElem?_getD,
    List.getElem?_set_self (by omega), Option.getD_some]

/-- The record with more bits of its state set. -/
def withBits (c : Record) (bits : Byte) : Record := c.withState ((c.state ||| bits) ^^^ 0xFF)

@[simp] theorem length_withBits (c : Record) (bits : Byte) : (c.withBits bits).length = c.length :=
  length_withState c _

theorem state_withBits (h : c.Sized) (bits : Byte) :
    (c.withBits bits).state = c.state ||| bits := by
  rw [state, withBits, stateByte_withState h, BitVec.xor_assoc, BitVec.xor_self, BitVec.xor_zero]

theorem hasBits_or (x y z : Byte) : hasBits (x ||| y) z = (hasBits x z || hasBits y z) := by
  have hand : (x ||| y) &&& z = x &&& z ||| y &&& z := by
    ext i
    simp only [BitVec.getElem_and, BitVec.getElem_or, Bool.and_or_distrib_right]
  have hzero : x &&& z ||| y &&& z = 0 ↔ x &&& z = 0 ∧ y &&& z = 0 := BitVec.or_eq_zero_iff
  rw [hasBits, hasBits, hasBits, hand, Bool.eq_iff_iff]
  simp only [decide_eq_true_eq, Bool.or_eq_true, ne_eq, hzero, not_and_or]

/-- A record in transition is still stored, an obsolete one is not. -/
theorem stored_withBits (h : c.Sized) (bits : Byte) (hadded : hasBits bits varAdded = false) :
    (c.withBits bits).stored = (c.stored && !hasBits bits varObsolete) := by
  rw [stored, stored, state_withBits h, hasBits_or, hasBits_or, hadded, Bool.or_false,
    Bool.not_or, Bool.and_assoc]

/-! ## The end of the name -/

theorem findNameEnd_append {so i : Nat} {l : List Byte} {r : Option Nat}
    (h : findNameEnd so i l = .ok r) (m : List Byte) : findNameEnd so i (l ++ m) = .ok r := by
  fun_induction findNameEnd so i l with
  | case1 => cases h
  | case2 i low hstop =>
    -- one byte was enough to tell that the name goes on up to the state byte
    cases m with
    | nil => rw [List.append_nil, findNameEnd, if_pos hstop, h]
    | cons high m =>
      have hword : ¬ (low = 0 ∧ high = 0) := fun hz => hstop.1 hz.1
      rw [List.cons_append, List.nil_append, findNameEnd, if_neg hword, if_pos hstop.2, h]
  | case3 => cases h
  | case4 i low high rest hzero =>
    rw [List.cons_append, List.cons_append, findNameEnd, if_pos hzero, h]
  | case5 i low high rest hzero hstop =>
    rw [List.cons_append, List.cons_append, findNameEnd, if_neg hzero, if_pos hstop, h]
  | case6 i low high rest hzero hstop ih =>
    rw [List.cons_append, List.cons_append, findNameEnd, if_neg hzero, if_neg hstop, ih h]

/-- The search does not depend on where the record is. -/
theorem findNameEnd_shift (k so i : Nat) (l : List Byte) :
    findNameEnd (k + so) (k + i) l = Option.map (k + ·) <$> findNameEnd so i l := by
  fun_induction findNameEnd so i l with
  | case1 => rfl
  | case2 i low hstop =>
    have hstop' : low ≠ 0 ∧ k + so ≤ k + i := ⟨hstop.1, by omega⟩
    rw [findNameEnd, if_pos hstop']
    rfl
  | case3 i low hstop =>
    have hstop' : ¬ (low ≠ 0 ∧ k + so ≤ k + i) := fun h => hstop ⟨h.1, by omega⟩
    rw [findNameEnd, if_neg hstop']
    rfl
  | case4 i low high rest hzero =>
    rw [findNameEnd, if_pos hzero]
    rfl
  | case5 i low high rest hzero hstop =>
    have hstop' : k + so ≤ k + i := by omega
    rw [findNameEnd, if_neg hzero, if_pos hstop']
    rfl
  | case6 i low high rest hzero hstop ih =>
    have hstop' : ¬ k + so ≤ k + i := by omega
    rw [findNameEnd, if_neg hzero, if_neg hstop', Nat.add_assoc, ih]

/-- The `NUL` that ends a name, and all the search has read. -/
theorem findNameEnd_some {so i e : Nat} {l : List Byte} (h : findNameEnd so i l = .ok (some e)) :
    i ≤ e ∧ e - i + 2 ≤ l.length ∧ l[e - i]? = some 0 ∧ l[e - i + 1]? = some 0 ∧
      findNameEnd so i (l.take (e - i + 2)) = .ok (some e) := by
  fun_induction findNameEnd so i l with
  | case1 => cases h
  | case2 => cases h
  | case3 => cases h
  | case4 i low high rest hzero =>
    cases h
    rw [Nat.sub_self]
    refine ⟨Nat.le_refl _, by simp, by simp [hzero.1], by simp [hzero.2], ?_⟩
    rw [Nat.zero_add, List.take_succ_cons, List.take_succ_cons, findNameEnd, if_pos hzero]
  | case5 => cases h
  | case6 i low high rest hzero hstop ih =>
    obtain ⟨hle, hlen, hlow, hhigh, htake⟩ := ih h
    have hsub : e - i = e - (i + 2) + 2 := by omega
    refine ⟨by omega, ?_, ?_, ?_, ?_⟩
    · rw [hsub, List.length_cons, List.length_cons]
      omega
    · rw [hsub]
      exact hlow
    · rw [hsub]
      exact hhigh
    · rw [hsub, List.take_succ_cons, List.take_succ_cons, findNameEnd, if_neg hzero,
        if_neg hstop, htake]

theorem stateByte_ne_zero (h : c.stored = true) : c.stateByte ≠ 0 := by
  intro hzero
  have hstate : c.state = 0xFF := by rw [state, hzero]; rfl
  rw [stored, hstate] at h
  cases h

/-- The name and its `NUL` of a valid record lie before its state byte. -/
theorem exists_nameEnd (hnamed : c.Named) (hvalid : c.valid = true) :
    ∃ e, c.nameEnd = .ok (some e) ∧ sizeofVariable ≤ e ∧ e + 2 ≤ c.varSize - 1 := by
  have hstored := stored_of_valid hvalid
  obtain ⟨r, hr, hbefore⟩ := hnamed hstored
  cases r with
  | none => simp [valid, fields, hstored, hr] at hvalid
  | some e =>
    have hlt := hbefore e rfl
    obtain ⟨hle, -, -, hhigh, -⟩ := findNameEnd_some hr
    refine ⟨e, hr, hle, ?_⟩
    by_contra hnot
    -- the second byte of the `NUL` would be the state byte, which is not zero
    have hstate : e + 1 = c.varSize - 1 := by omega
    rw [List.getElem?_drop, show sizeofVariable + (e - sizeofVariable + 1) = e + 1 by omega,
      hstate] at hhigh
    apply stateByte_ne_zero hstored
    rw [stateByte, List.getD_eq_getElem?_getD, hhigh, Option.getD_some]

theorem nameEnd_withState (hsized : c.Sized) {e : Nat} (h : c.nameEnd = .ok (some e))
    (hbefore : e + 2 ≤ c.varSize - 1) (b : Byte) : (c.withState b).nameEnd = .ok (some e) := by
  obtain ⟨hle, hlen, -, -, htake⟩ := findNameEnd_some h
  have hsame : ((c.withState b).drop sizeofVariable).take (e - sizeofVariable + 2) =
      (c.drop sizeofVariable).take (e - sizeofVariable + 2) := slice_withState (by omega)
  rw [nameEnd, varSize_withState hsized, ← List.take_append_drop (e - sizeofVariable + 2)
    (List.drop sizeofVariable (c.withState b)), hsame]
  exact findNameEnd_append htake _

theorem fields_withState (hsized : c.Sized) (hnamed : c.Named) (hvalid : c.valid = true) (b : Byte)
    (off : Nat) :
    (c.withState b).fields off = if (c.withState b).stored then c.fields off else none := by
  obtain ⟨e, he, hle, hbefore⟩ := exists_nameEnd hnamed hvalid
  have hattributes : slice (c.withState b) 2 2 = slice c 2 2 := by
    have := hsized.large'
    exact slice_withState (by omega)
  have hguid : slice (c.withState b) 4 16 = slice c 4 16 := by
    have := hsized.large'
    exact slice_withState (by omega)
  have hname : slice (c.withState b) sizeofVariable (e - sizeofVariable) =
      slice c sizeofVariable (e - sizeofVariable) := slice_withState (by omega)
  rw [fields, fields, if_pos (stored_of_valid hvalid), nameEnd_withState hsized he hbefore, he]
  dsimp only
  rw [hattributes, hguid, hname, varSize_withState hsized]

theorem valid_withState (hsized : c.Sized) (hnamed : c.Named) (hvalid : c.valid = true) (b : Byte) :
    (c.withState b).valid = (c.withState b).stored := by
  rw [valid, fields_withState hsized hnamed hvalid]
  split
  · rename_i hstored
    rw [hstored]
    exact hvalid
  · rename_i hstored
    rw [Bool.not_eq_true] at hstored
    rw [hstored]
    rfl

theorem Named.withState (hnamed : c.Named) (hsized : c.Sized) (hvalid : c.valid = true)
    (b : Byte) : (c.withState b).Named := by
  obtain ⟨e, he, -, hbefore⟩ := exists_nameEnd hnamed hvalid
  intro _
  refine ⟨some e, nameEnd_withState hsized he hbefore b, ?_⟩
  rintro e' ⟨⟩
  rw [varSize_withState hsized]
  omega

/-! ## The copy of a record that is moved -/

/-- A record as `RtVarMove` writes it. -/
def readded (c : Record) : Record := c.withState (0xFF ^^^ varAdded)

theorem state_readded (h : c.Sized) : c.readded.state = varAdded := by
  rw [state, readded, stateByte_withState h]
  rfl

theorem stored_readded (h : c.Sized) : c.readded.stored = true := by
  rw [stored, state_readded h]
  rfl

theorem valid_readded (hsized : c.Sized) (hnamed : c.Named) (hvalid : c.valid = true) :
    c.readded.valid = true := by
  rw [readded, valid_withState hsized hnamed hvalid]
  exact stored_readded hsized

end Record

end EfiCore.Var
