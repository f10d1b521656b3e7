import EfiCore.Lib.Meets
import EfiCore.Var.Record

/-! # The records of a bank

`Bank.Chain k hdr cs rest`: the copy of a bank is a header `hdr`, the records `cs` and then
`rest`, and its tail is where the records end.  A bank that has no room for another record may
have its tail at its end.
-/

namespace EfiCore.Var

open EfiCore.Lib

/-- Parsing the name fills in the fields and nothing else. -/
theorem ensures_parseName (A : Arch) (data : List Byte) (info : VarInfo) :
    Ensures (parseName A data info) fun info' => ∃ fields, info' = { info with fields } := by
  rw [parseName]
  refine Ensures.bind (Ensures.self _) fun nameEnd _ => ?_
  cases nameEnd with
  | none => exact Ensures.pure ⟨info.fields, rfl⟩
  | some nameEnd =>
    refine Ensures.bind (Ensures.self _) fun attributes _ => ?_
    refine Ensures.bind (Ensures.self _) fun guid _ => ?_
    exact Ensures.pure ⟨_, rfl⟩

/-- `info` says where the record `c` is, and which state it has if it is valid. -/
structure Record.Placed (c : Record) (off : Nat) (info : VarInfo) : Prop where
  varOffset : info.varOffset = off
  varSize : info.varSize = c.length
  stateOffset : info.stateOffset = off + c.varSize - 1
  nextVarOffset : info.nextVarOffset = off + c.length
  valid : info.fields.isSome = true → c.stored = true ∧ info.state = c.state

theorem Record.placed_info (c : Record) (off : Nat) : c.Placed off (c.info off) where
  varOffset := rfl
  varSize := rfl
  stateOffset := rfl
  nextVarOffset := rfl
  valid := by
    intro h
    have hvalid : c.valid = true := by
      rw [← c.isSome_fields off]
      exact h
    have hstored := Record.stored_of_valid hvalid
    exact ⟨hstored, if_pos hstored⟩

/-! ## One record -/

/-- The record `c` lies below the tail of a bank, at the offset `off`. -/
structure Bank.Holds (k : Bank) (off : Nat) (c : Record) : Prop where
  data : ∃ before after, k.data = before ++ c ++ after ∧ before.length = off
  sized : c.Sized
  below : off + c.length ≤ k.tail
  tail_le : k.tail ≤ k.bankSize
  small : k.bankSize < 2 ^ 32

namespace Bank.Holds

variable {k : Bank} {off : Nat} {c : Record} {A : Arch}

theorem slice_at (h : k.Holds off c) {i n : Nat} (hin : i + n ≤ c.length) :
    slice k.data (off + i) n = slice c i n := by
  obtain ⟨before, after, hdata, rfl⟩ := h.data
  rw [hdata, List.append_assoc, slice_append_right, slice_append_left hin]

theorem readBuffer_at (h : k.Holds off c) {i n : Nat} (hin : i + n ≤ c.length) :
    readBuffer k.data (off + i) n = .ok (slice c i n) := by
  have hbelow := h.below
  have htail := h.tail_le
  have hwithin : off + i + n ≤ k.data.length := by
    rw [Bank.bankSize] at htail
    omega
  rw [readBuffer, if_pos hwithin, h.slice_at hin]

theorem readByte_at (h : k.Holds off c) {i : Nat} (hin : i < c.length) :
    readByte k.data (off + i) = .ok (c.getD i 0) := by
  obtain ⟨before, after, hdata, rfl⟩ := h.data
  have hget : k.data[before.length + i]? = some (c.getD i 0) := by
    rw [hdata, List.append_assoc, List.getElem?_append_right (by omega),
      Nat.add_sub_cancel_left, List.getElem?_append_left hin, List.getElem?_eq_getElem hin,
      List.getD_eq_getElem?_getD, List.getElem?_eq_getElem hin, Option.getD_some]
  rw [readByte, hget]

theorem drop_at (h : k.Holds off c) {i : Nat} (hin : i ≤ c.length) :
    ∃ after, k.data.drop (off + i) = c.drop i ++ after := by
  obtain ⟨before, after, hdata, rfl⟩ := h.data
  exact ⟨after, by rw [hdata, List.append_assoc, List.drop_length_add_append,
    List.drop_append_of_le_length hin]⟩

theorem parse (h : k.Holds off c) :
    rtVarParseStore A k off =
      if c.stored then
        some <$> parseName A k.data { c.info off with state := c.state, fields := none }
      else .ok (some (c.info off)) := by
  have hsized := h.sized
  have hlarge := hsized.large'
  have hle := hsized.varSize_le
  have hbelow := h.below
  have htail := h.tail_le
  have hsmall := h.small
  have hroom : ¬ k.tail < off + (sizeofVariable + 1 + 2 + 1) := by
    rw [sizeofVariable]
    omega
  have hsize : readUint16 k.data off = .ok (leNat (slice c 0 2)) := by
    have hread := h.readBuffer_at (i := 0) (n := 2) (by omega)
    rw [Nat.add_zero] at hread
    rw [readUint16, hread]
    rfl
  have hmask : varSizeMask (leNat (slice c 0 2)) = c.varSize := rfl
  have hfits : ¬ k.bankSize < A.add (A.sub c.varSize sizeofVariable) off := by
    rw [Arch.sub_of_le (by rw [sizeofVariable]; omega) (by omega), Arch.add_of_lt (by omega)]
    omega
  have hstateByte : readByte k.data (off + c.varSize - 1) = .ok c.stateByte := by
    rw [show off + c.varSize - 1 = off + (c.varSize - 1) by omega]
    exact h.readByte_at (by omega)
  have hnext : off + c.varSize + padSize c.varSize = off + c.length := by
    rw [hsized.length]
    omega
  have hlength : off + c.length - off = c.length := by omega
  have hstate : c.stateByte ^^^ 0xFF = c.state := rfl
  rw [rtVarParseStore, if_neg hroom, hsize]
  simp only [bind, Except.bind, hmask, if_neg hsized.marker, if_neg hfits, hstateByte, hnext,
    hlength, hstate]
  have htest : (!hasBits c.state varAdded || hasBits c.state varObsolete) = !c.stored := by
    rw [Record.stored, Bool.not_and, Bool.not_not]
  rw [htest]
  cases hstored : c.stored with
  | true => rfl
  | false =>
    rw [Bool.not_false, if_pos rfl, if_neg Bool.false_ne_true, Record.info, Record.fields, hstored]
    rfl

/-- The parser finds out about a named record what `Record.info` says. -/
theorem parse_named (h : k.Holds off c) (hnamed : c.Named) :
    rtVarParseStore A k off = .ok (some (c.info off)) := by
  have hsized := h.sized
  have hlarge := hsized.large'
  have hle := hsized.varSize_le
  rw [h.parse]
  by_cases hstored : c.stored = true
  · rw [if_pos hstored]
    obtain ⟨r, hr, hbefore⟩ := hnamed hstored
    have hscan : findNameEnd (off + c.varSize - 1) (off + sizeofVariable)
        (k.data.drop (off + sizeofVariable)) = .ok (r.map (off + ·)) := by
      obtain ⟨after, hdrop⟩ := h.drop_at (i := sizeofVariable) (by rw [sizeofVariable]; omega)
      rw [hdrop, show off + c.varSize - 1 = off + (c.varSize - 1) by omega,
        Record.findNameEnd_shift, Record.findNameEnd_append hr]
      rfl
    cases r with
    | none =>
      have hfields : c.fields off = none := by
        rw [Record.fields, if_pos hstored, hr]
      rw [parseName, Record.info, hscan, hfields, if_pos hstored]
      rfl
    | some e =>
      have hvalid : c.valid = true := by
        rw [Record.valid, Record.fields, if_pos hstored, hr]
        rfl
      obtain ⟨e', he', hfirst, hlast⟩ := Record.exists_nameEnd hnamed hvalid
      obtain rfl : e = e' := by
        rw [hr] at he'
        cases he'
        rfl
      have hbelow := h.below
      have htail := h.tail_le
      have hsmall := h.small
      have hattributes : readUint16 k.data (off + 2) = .ok (leNat (slice c 2 2)) := by
        rw [readUint16, h.readBuffer_at (by omega)]
        rfl
      have hguid := h.readBuffer_at (i := 4) (n := 16) (by omega)
      have hname : off + e - (off + sizeofVariable) = e - sizeofVariable := by
        omega
      have hdataOffset : off + sizeofVariable + (e - sizeofVariable + 2) = off + (e + 2) := by
        omega
      have hdataSize : A.sub (off + c.varSize - 1) (off + (e + 2)) =
          c.varSize - 1 - (e + 2) := by
        rw [Arch.sub_of_le (by omega) (by omega)]
        omega
      have hfields : c.fields off = some
          { attributes := BitVec.ofNat 32 (leNat (slice c 2 2))
            vendorGuid := BitVec.ofNat 128 (leNat (slice c 4 16))
            name := char16s (slice c sizeofVariable (e - sizeofVariable))
            nameSize := e - sizeofVariable + 2
            dataOffset := off + (e + 2)
            dataSize := c.varSize - 1 - (e + 2) } := by
        rw [Record.fields, if_pos hstored, hr]
      rw [parseName, Record.info, hscan]
      simp only [bind, Except.bind, Option.map_some, hattributes, hguid, hname, hdataOffset,
        hdataSize]
      rw [h.slice_at (by omega), hfields, if_pos hstored]
      rfl
  · rw [if_neg hstored]

/-- Of any record the parser finds out at least where it is, and of one it reports valid what
    state it has. -/
theorem parse_placed (h : k.Holds off c) :
    Ensures (rtVarParseStore A k off) fun r => ∃ info, r = some info ∧ c.Placed off info := by
  rw [h.parse]
  refine Ensures.ite (fun hstored => Ensures.map ?_) fun _ => ?_
  · refine (ensures_parseName A k.data _).mono fun info' h' => ?_
    obtain ⟨fields, rfl⟩ := h'
    exact ⟨_, rfl, rfl, rfl, rfl, rfl, fun _ => ⟨hstored, rfl⟩⟩
  · exact Ensures.ok ⟨_, rfl, c.placed_info off⟩

end Bank.Holds

/-! ## All records -/

/-- The bytes of the header and of the records. -/
def recordsEnd (cs : List Record) : Nat := firstVariableOffset + cs.flatten.length

structure Bank.Chain (k : Bank) (hdr : List Byte) (cs : List Record) (rest : List Byte) : Prop where
  data : k.data = hdr ++ cs.flatten ++ rest
  header : hdr.length = firstVariableOffset
  sized : ∀ c ∈ cs, c.Sized
  tail : k.tail = recordsEnd cs ∨
    (k.tail = k.bankSize ∧ rest.length < sizeofVariable + 1 + 2 + 1)
  small : k.data.length < 2 ^ 32

theorem recordsEnd_append (cs cs' : List Record) :
    recordsEnd (cs ++ cs') = recordsEnd cs + cs'.flatten.length := by
  rw [recordsEnd, recordsEnd, List.flatten_append, List.length_append, Nat.add_assoc]

theorem recordsEnd_concat (c : Record) (pre : List Record) :
    recordsEnd (pre ++ [c]) = recordsEnd pre + c.length := by
  rw [recordsEnd_append, List.flatten_singleton]

namespace Bank.Chain

variable {k : Bank} {hdr rest : List Byte} {cs pre post : List Record} {c : Record} {A : Arch}

theorem bankSize_eq (h : k.Chain hdr cs rest) : k.bankSize = recordsEnd cs + rest.length := by
  rw [Bank.bankSize, h.data, List.length_append, List.length_append, h.header, recordsEnd]

theorem recordsEnd_le (h : k.Chain hdr cs rest) : recordsEnd cs ≤ k.tail := by
  have := h.bankSize_eq
  rcases h.tail with htail | ⟨htail, _⟩ <;> omega

theorem tail_lt (h : k.Chain hdr cs rest) :
    k.tail < recordsEnd cs + (sizeofVariable + 1 + 2 + 1) := by
  have := h.bankSize_eq
  rcases h.tail with htail | ⟨htail, _⟩ <;> simp only [sizeofVariable] at * <;> omega

theorem tail_le (h : k.Chain hdr cs rest) : k.tail ≤ k.bankSize := by
  have := h.bankSize_eq
  rcases h.tail with htail | ⟨htail, _⟩ <;> omega

/-- What lies around one record. -/
theorem split (h : k.Chain hdr (pre ++ c :: post) rest) :
    k.data = (hdr ++ pre.flatten) ++ c ++ (post.flatten ++ rest) ∧
      (hdr ++ pre.flatten).length = recordsEnd pre := by
  constructor
  · rw [h.data, List.flatten_append, List.flatten_cons]
    simp only [List.append_assoc]
  · rw [List.length_append, h.header, recordsEnd]

theorem sized_at (h : k.Chain hdr (pre ++ c :: post) rest) : c.Sized :=
  h.sized c (List.mem_append_right _ List.mem_cons_self)

theorem within (c : Record) (pre post : List Record) :
    recordsEnd pre + c.length ≤ recordsEnd (pre ++ c :: post) := by
  rw [recordsEnd_append, List.flatten_cons, List.length_append]
  omega

/-- Each record of a bank is held by it. -/
theorem holds (h : k.Chain hdr (pre ++ c :: post) rest) : k.Holds (recordsEnd pre) c where
  data := by
    obtain ⟨hdata, hlen⟩ := h.split
    exact ⟨_, _, hdata, hlen⟩
  sized := h.sized_at
  below := (within c pre post).trans h.recordsEnd_le
  tail_le := h.tail_le
  small := h.small

theorem parse_end (h : k.Chain hdr cs rest) : rtVarParseStore A k (recordsEnd cs) = .ok none := by
  rw [rtVarParseStore, if_pos h.tail_lt]

/-- The parser finds out about a named record what `Record.info` says. -/
theorem parse_named (h : k.Chain hdr (pre ++ c :: post) rest) (hnamed : c.Named) :
    rtVarParseStore A k (recordsEnd pre) = .ok (some (c.info (recordsEnd pre))) :=
  h.holds.parse_named hnamed

/-- Of any record the parser finds out at least where it is, and of one it reports valid what
    state it has. -/
theorem parse_placed (h : k.Chain hdr (pre ++ c :: post) rest) :
    Ensures (rtVarParseStore A k (recordsEnd pre)) fun r =>
      ∃ info, r = some info ∧ c.Placed (recordsEnd pre) info :=
  h.holds.parse_placed

end Bank.Chain

/-! ## Splitting a bank into its records -/

/-- The records at the start of `l`, at most `fuel` of them. -/
def splitRecords : Nat → List Byte → List Record
  | 0, _ => []
  | fuel + 1, l =>
    let varSize := Record.varSize l
    if l.length < sizeofVariable + 1 + 2 + 1 ∨ varSize < sizeofVariable + 1 + 2 + 1 then []
    else l.take (varSize + padSize varSize) ::
      splitRecords fuel (l.drop (varSize + padSize varSize))

/-- The records below the tail of a bank. -/
def Bank.records (k : Bank) : List Record :=
  splitRecords k.tail ((k.data.take k.tail).drop firstVariableOffset)

theorem splitRecords_flatten {cs : List Record} (hsized : ∀ c ∈ cs, c.Sized) {l : List Byte}
    (hl : l.length < sizeofVariable + 1 + 2 + 1) {fuel : Nat} (hfuel : cs.length ≤ fuel) :
    splitRecords fuel (cs.flatten ++ l) = cs := by
  induction cs generalizing fuel with
  | nil =>
    cases fuel with
    | zero => rfl
    | succ fuel => rw [List.flatten_nil, List.nil_append, splitRecords, if_pos (.inl hl)]
  | cons c cs ih =>
    have hc := hsized c List.mem_cons_self
    have hlarge := hc.large'
    have hle := hc.varSize_le
    cases fuel with
    | zero => simp at hfuel
    | succ fuel =>
      have hvarSize : Record.varSize (c ++ (cs.flatten ++ l)) = c.varSize := by
        rw [Record.varSize, slice_append_left (by omega), Record.varSize]
      have hroom : ¬ ((c ++ (cs.flatten ++ l)).length < sizeofVariable + 1 + 2 + 1 ∨
          c.varSize < sizeofVariable + 1 + 2 + 1) := by
        rw [List.length_append, sizeofVariable]
        omega
      have hrest := ih (fun c' hc' => hsized c' (List.mem_cons_of_mem _ hc'))
        (Nat.le_of_succ_le_succ hfuel)
      rw [List.flatten_cons, List.append_assoc, splitRecords, hvarSize, if_neg hroom, ← hc.length, List.take_left, List.drop_left, hrest]

theorem length_le_flatten {cs : List Record} (hsized : ∀ c ∈ cs, c.Sized) :
    cs.length ≤ cs.flatten.length := by
  induction cs with
  | nil => exact Nat.le_refl _
  | cons c cs ih =>
    have hc := hsized c List.mem_cons_self
    have hlarge := hc.large'
    have hle := hc.varSize_le
    have := ih fun c' hc' => hsized c' (List.mem_cons_of_mem _ hc')
    rw [List.flatten_cons, List.length_append, List.length_cons]
    omega

theorem Bank.Chain.records_eq {k : Bank} {hdr rest : List Byte} {cs : List Record}
    (h : k.Chain hdr cs rest) : k.records = cs := by
  have hlast : (k.data.take k.tail).drop firstVariableOffset =
      cs.flatten ++ rest.take (k.tail - recordsEnd cs) := by
    have htail : k.tail = (hdr ++ cs.flatten).length + (k.tail - recordsEnd cs) := by
      have := h.recordsEnd_le
      rw [List.length_append, h.header, ← recordsEnd]
      omega
    rw [h.data, htail, List.take_length_add_append, ← h.header, List.append_assoc, List.drop_left]
    congr 2
    rw [List.length_append, h.header, ← recordsEnd]
    omega
  have hshort : (rest.take (k.tail - recordsEnd cs)).length < sizeofVariable + 1 + 2 + 1 := by
    have := h.tail_lt
    rw [List.length_take]
    omega
  have hfuel : cs.length ≤ k.tail := by
    have := length_le_flatten h.sized
    have := h.recordsEnd_le
    rw [recordsEnd] at this
    omega
  rw [Bank.records, hlast, splitRecords_flatten h.sized hshort hfuel]

end EfiCore.Var
