import EfiCore.Var.Collect

/-! # Discovery of banks

`VarStoreAddBank` reads a bank that it finds in use up to the end of its records.  A content is
`Clean` when the records of such a bank are well formed: each lies in the bank, has a name that
ends before its state, and the last is followed by the mark of free space or by less space than
a record takes.
-/

namespace EfiCore.Var

open EfiCore.Lib

/-! ## Contents -/

/-- The header of the content of a bank. -/
def bankHeader (f : List Byte) : BankHeader where
  signature := leNat (slice f 0 4)
  sequence := leNat (slice f 4 2)
  format := f.getD 6 0
  state := f.getD 7 0

/-- `VarStoreAddBank` keeps a bank with this content. -/
def interesting (f : List Byte) : Bool :=
  (bankHeader f).signature = bankHeaderSignature && (bankHeader f).format = varhFormat &&
    !(hasBits ((bankHeader f).state ^^^ 0xFF) varhAddTransition &&
      !hasBits ((bankHeader f).state ^^^ 0xFF) varhInUseTransition)

/-- The space behind the records of a bank. -/
structure FreeSpace (g : Regime) (rest : List Byte) : Prop where
  marked : rest.length < sizeofVariable + 1 + 2 + 1 ∨ leNat (slice rest 0 2) = 0xFFFF ∨
    leNat (slice rest 0 2) = 0
  erased : g.erased → sizeofVariable + 1 + 2 + 1 ≤ rest.length → ∀ byte ∈ rest, byte = 0xFF

/-- A record without its pad. -/
def Record.body (c : Record) : List Byte := c.take c.varSize

/-- The search for the end of the name of a stored record does not leave the record. -/
def Record.Terminated (c : Record) : Prop :=
  c.stored = true →
    ∃ r, findNameEnd (c.varSize - 1) sizeofVariable (c.body.drop sizeofVariable) = .ok r

/-- A content with the records `cs`. -/
structure Stored (g : Regime) (f hdr : List Byte) (cs : List Record) (rest : List Byte) : Prop where
  content : f = hdr ++ cs.flatten ++ rest
  header : hdr.length = firstVariableOffset
  sized : ∀ c ∈ cs, c.Sized
  terminated : ∀ c ∈ cs, c.Terminated
  free : FreeSpace g rest

/-- The first record of a content is refused, and the bank cleared. -/
structure Refused (A : Arch) (f : List Byte) : Prop where
  room : firstVariableOffset + (sizeofVariable + 1 + 2 + 1) ≤ f.length
  marked : leNat (slice f firstVariableOffset 2) ≠ 0xFFFF ∧
    leNat (slice f firstVariableOffset 2) ≠ 0
  refused :
    let varSize := A.sub (varSizeMask (leNat (slice f firstVariableOffset 2))) sizeofVariable
    f.length < A.add varSize firstVariableOffset ∨ varSize < 1 + 2 + 1

def Clean (A : Arch) (g : Regime) (f : List Byte) : Prop :=
  interesting f = true → (∃ hdr cs rest, Stored g f hdr cs rest) ∨ Refused A f

/-- The copy of a record, with any pad. -/
structure Record.CopyOf (c c' : Record) : Prop where
  length : c'.length = c.length
  body : c'.take c.varSize = c.body

namespace Record.CopyOf

variable {c c' : Record}

theorem slice_eq (h : c.CopyOf c') {off n : Nat} (hin : off + n ≤ c.varSize) :
    slice c' off n = slice c off n := by
  have hc' : slice (c'.take c.varSize) off n = slice c' off n := by
    rw [slice, slice, List.drop_take, List.take_take, Nat.min_eq_left (by omega)]
  have hc : slice (c.take c.varSize) off n = slice c off n := by
    rw [slice, slice, List.drop_take, List.take_take, Nat.min_eq_left (by omega)]
  rw [← hc', h.body]
  exact hc

theorem varSize_eq (h : c.CopyOf c') (hsized : c.Sized) : c'.varSize = c.varSize := by
  have := hsized.large'
  rw [varSize, h.slice_eq (by omega), varSize]

theorem sized (h : c.CopyOf c') (hsized : c.Sized) : c'.Sized where
  marker := by
    have := hsized.large'
    rw [h.slice_eq (by omega)]
    exact hsized.marker
  large := by
    rw [h.varSize_eq hsized]
    exact hsized.large
  length := by
    rw [h.length, h.varSize_eq hsized]
    exact hsized.length

theorem stateByte_eq (h : c.CopyOf c') (hsized : c.Sized) : c'.stateByte = c.stateByte := by
  have hlarge := hsized.large'
  have hslice := h.slice_eq (show c.varSize - 1 + 1 ≤ c.varSize by omega)
  have hget : ∀ l : Record, (slice l (c.varSize - 1) 1).getD 0 0 = l.getD (c.varSize - 1) 0 := by
    intro l
    rw [getD_slice (by omega), Nat.add_zero]
  rw [stateByte, stateByte, h.varSize_eq hsized, ← hget, hslice, hget]

theorem stored_eq (h : c.CopyOf c') (hsized : c.Sized) : c'.stored = c.stored := by
  rw [stored, stored, state, state, h.stateByte_eq hsized]

theorem named (h : c.CopyOf c') (hsized : c.Sized) (hterminated : c.Terminated) : c'.Named := by
  intro hstored
  rw [h.stored_eq hsized] at hstored
  obtain ⟨r, hr⟩ := hterminated hstored
  have hlarge := hsized.large'
  have hlength : c.body.length = c.varSize := List.length_take_of_le hsized.varSize_le
  -- the body, and the pad that the search does not get to
  have hdrop : c'.drop sizeofVariable = c.body.drop sizeofVariable ++ c'.drop c.varSize := by
    have hsplit := List.take_append_drop c.varSize c'
    rw [h.body] at hsplit
    rw [← List.drop_append_of_le_length (by rw [hlength, sizeofVariable]; omega), hsplit]
  refine ⟨r, ?_, ?_⟩
  · rw [nameEnd, h.varSize_eq hsized, hdrop]
    exact findNameEnd_append hr _
  · rintro e rfl
    obtain ⟨hle, hbefore, -⟩ := findNameEnd_some hr
    rw [List.length_drop, hlength] at hbefore
    rw [h.varSize_eq hsized]
    omega

end Record.CopyOf

variable {f hdr hdrM rest : List Byte} {cs pre post : List Record} {c : Record}

/-- Where a record lies in a content. -/
theorem Stored.slice_at {g : Regime} (h : Stored g f hdr (pre ++ c :: post) rest) {i n : Nat}
    (hin : i + n ≤ c.length) : slice f (recordsEnd pre + i) n = slice c i n := by
  have hoff : recordsEnd pre = (hdr ++ pre.flatten).length := by
    rw [List.length_append, h.header, recordsEnd]
  rw [h.content, List.flatten_append, List.flatten_cons, ← List.append_assoc, List.append_assoc,
    hoff, slice_append_right, List.append_assoc, slice_append_left hin]

theorem Stored.length_eq {g : Regime} (h : Stored g f hdr cs rest) :
    f.length = recordsEnd cs + rest.length := by
  rw [h.content, List.length_append, List.length_append, h.header, recordsEnd]

/-- A record is read in two parts. -/
theorem splice_loads {l f : List Byte} {off m n : Nat} (hl : l.length = f.length)
    (hfits : off + m + n ≤ f.length) :
    splice (splice l off (slice f off m)) (off + m) (slice f (off + m) n) =
      splice l off (slice f off (m + n)) := by
  have hm : (slice f off m).length = m := length_slice (by omega)
  have hn : (slice f (off + m) n).length = n := length_slice (by omega)
  have happend := splice_append l (slice f off m) (slice f (off + m) n) off (by omega)
  rw [hm] at happend
  rw [happend, slice_append_slice]

/-! ## Reading a bank -/

namespace State

variable {P : Platform} {g : Regime} {s s' s1 s2 : State} {b : BankAddr}

/-- What a read of the device does: the copy gets the bytes, or the bank has failed. -/
structure Loaded (b : BankAddr) (off n : Nat) (s s' : State) : Prop where
  on : OnBank b s s'
  flash : s'.flash = s.flash
  log : s'.log = s.log
  fits : off + n ≤ (s.bank b).data.length
  outcome : (s'.bank b).deviceError = true ∨ s'.bank b =
    { s.bank b with data := splice (s.bank b).data off (slice (s.flash b) off n) }

theorem rtVarReadStore_loaded (P : Platform) (s : State) (b : BankAddr) (off n : Nat) :
    Ensures (s.rtVarReadStore P b off n) (Loaded b off n s) := by
  rw [rtVarReadStore, deviceReadStore]
  refine Ensures.bind (P := fun r : Bool × State =>
    ∃ bytes : List Byte, bytes.length = n ∧ off + n ≤ (s.bank b).data.length ∧
      r.2 = s.answered.setBank b { s.bank b with data := splice (s.bank b).data off bytes } ∧
      (r.1 = false → bytes = slice (s.flash b) off n)) ?_ fun r hr => ?_
  · refine Ensures.bind (Ensures.self _) fun old hold => ?_
    refine Ensures.bind (Ensures.self _) fun new hnew => Ensures.pure ?_
    rw [readBuffer] at hold hnew
    split at hold
    · rename_i hfits
      cases hold
      split at hnew
      · rename_i hfits'
        cases hnew
        refine ⟨_, ?_, hfits, rfl, ?_⟩
        · split
          · exact List.length_mapIdx.trans (length_slice hfits)
          · exact length_slice hfits'
        · intro hok
          change (P.answer s.calls).fails = false at hok
          rw [if_neg (by rw [hok]; exact Bool.false_ne_true)]
      · cases hnew
    · cases hold
  · obtain ⟨bytes, hlength, hfits, hstate, hbytes⟩ := hr
    have hlen : (splice (s.bank b).data off bytes).length = (s.bank b).data.length :=
      length_splice (by omega)
    have hon : OnBank b s (s.answered.setBank b
        { s.bank b with data := splice (s.bank b).data off bytes }) :=
      ⟨rfl, rfl, rfl, fun _ hb' => bank_setBank_of_ne _ hb' _, fun _ _ => rfl,
        by rw [bank_setBank_self], by rw [bank_setBank_self],
        by rw [bank_setBank_self]; exact hlen, rfl, by rw [bank_setBank_self]; exact fun h => h⟩
    refine Ensures.pure ?_
    cases hfailed : r.1 with
    | true =>
      rw [if_pos rfl]
      have hfail : OnBank b r.2 (r.2.bankFailed b) := .setBank rfl rfl rfl fun _ => rfl
      refine ⟨(hstate ▸ hon).trans hfail, ?_, ?_, hfits, .inl ?_⟩
      · rw [hstate]
        rfl
      · rw [hstate]
        rfl
      · rw [bankFailed, bank_setBank_self]
    | false =>
      rw [if_neg Bool.false_ne_true, hstate]
      refine ⟨hon, rfl, rfl, hfits, .inr ?_⟩
      rw [bank_setBank_self, hbytes hfailed]

/-- Only what is read of the bank differs. -/
structure Reads (b : BankAddr) (s s' : State) : Prop where
  on : OnBank b s s'
  flash : s'.flash = s.flash
  log : s'.log = s.log

theorem Reads.refl (b : BankAddr) (s : State) : Reads b s s := ⟨.refl b s, rfl, rfl⟩

theorem Reads.trans (h : Reads b s s1) (h' : Reads b s1 s2) : Reads b s s2 :=
  ⟨h.on.trans h'.on, h'.flash.trans h.flash, h'.log.trans h.log⟩

theorem Loaded.reads {off n : Nat} (h : Loaded b off n s s') : Reads b s s' :=
  ⟨h.on, h.flash, h.log⟩

/-- A bank that has failed is not read any further. -/
theorem findTail_failed (P : Platform) (b : BankAddr) (fuel offset : Nat) (s : State)
    (hfailed : (s.bank b).deviceError = true) :
    Ensures (s.findTail P b fuel offset) fun r =>
      Reads b s r.2 ∧ (r.2.bank b).deviceError = true := by
  cases fuel with
  | zero => exact Ensures.error
  | succ fuel =>
    rw [findTail]
    refine Ensures.ite (fun _ => Ensures.pure ⟨.refl b s, hfailed⟩) fun _ => ?_
    refine Ensures.ite (fun _ => Ensures.pure ⟨.refl b s, hfailed⟩) fun _ => ?_
    refine Ensures.bind (rtVarReadStore_loaded P s b offset sizeofVariable) fun s1 h1 => ?_
    rw [if_pos (h1.on.failed hfailed)]
    exact Ensures.pure ⟨h1.reads, h1.on.failed hfailed⟩

/-- The records `pre` of the content `f` have been read, behind the header `hdr` of the copy. -/
structure Scanned (f hdr : List Byte) (b : BankAddr) (pre : List Record) (s : State) : Prop where
  header : hdr.length = firstVariableOffset
  flash : s.flash b = f
  length : (s.bank b).data.length = f.length
  tail : (s.bank b).tail = (s.bank b).bankSize
  copies : ∃ copies : List Record, ∃ rest, (s.bank b).data = hdr ++ copies.flatten ++ rest ∧
    List.Forall₂ Record.CopyOf pre copies ∧ (s.bank b).inUse = inUseOf copies

theorem recordsEnd_copies {copies : List Record} (h : List.Forall₂ Record.CopyOf cs copies) :
    recordsEnd copies = recordsEnd cs := by
  apply recordsEnd_congr
  induction h with
  | nil => rfl
  | cons hcopy _ ih => rw [List.map_cons, List.map_cons, hcopy.length, ih]

/-- What is read at the end of the records that have been read so far. -/
theorem splice_records {copies : List Record} {data restM : List Byte}
    (hdata : data = hdr ++ copies.flatten ++ restM) (hhdr : hdr.length = firstVariableOffset)
    (bytes : List Byte) :
    splice data (recordsEnd copies) bytes =
      hdr ++ copies.flatten ++ (bytes ++ restM.drop bytes.length) := by
  have hoff : recordsEnd copies = (hdr ++ copies.flatten).length + 0 := by
    rw [List.length_append, hhdr, recordsEnd, Nat.add_zero]
  rw [hdata, hoff, splice_append_right, splice, List.take_zero, List.nil_append, Nat.zero_add]

/-- The next record has been read. -/
theorem Scanned.next {g : Regime} (h : Scanned f hdrM b pre s)
    (hstored : Stored g f hdr (pre ++ c :: post) rest) (hsmall : f.length < 2 ^ 32)
    {s1 : State} (hreads : Reads b s s1)
    (hbank : s1.bank b =
      { s.bank b with
        data := splice (s.bank b).data (recordsEnd pre) (slice f (recordsEnd pre) c.varSize) }) :
    ∃ c', c.CopyOf c' ∧
      rtVarParseStore P.arch (s1.bank b) (recordsEnd pre) =
        .ok (some (c'.info (recordsEnd pre))) ∧
      Scanned f hdrM b (pre ++ [c])
        (if c'.valid then s1.setBank b
          { s1.bank b with inUse := P.arch.add (s1.bank b).inUse c'.length } else s1) := by
  obtain ⟨copies, restM, hdata, hcopies, hinUse⟩ := h.copies
  have hend := recordsEnd_copies hcopies
  have hsized : c.Sized := hstored.sized c (List.mem_append_right _ List.mem_cons_self)
  have hterminated : c.Terminated :=
    hstored.terminated c (List.mem_append_right _ List.mem_cons_self)
  have hlarge := hsized.large'
  have hle := hsized.varSize_le
  have htotal := hstored.length_eq
  rw [recordsEnd_append, List.flatten_cons, List.length_append] at htotal
  have hrestM : recordsEnd pre + restM.length = f.length := by
    rw [← h.length, hdata, List.length_append, List.length_append, h.header, ← hend,
      recordsEnd]
  have hbody : slice f (recordsEnd pre) c.varSize = c.body := by
    have hslice := hstored.slice_at (i := 0) (n := c.varSize) (by omega)
    rw [Nat.add_zero] at hslice
    rw [hslice, slice, List.drop_zero]
    rfl
  have hbodyLength : c.body.length = c.varSize := List.length_take_of_le hle
  have hnew : (s1.bank b).data =
      hdrM ++ copies.flatten ++ (c.body ++ restM.drop c.varSize) := by
    rw [hbank, hbody, ← hend]
    dsimp only
    rw [splice_records hdata h.header, hbodyLength]
  -- the copy of the record has a pad of its own
  obtain ⟨c', hc', hcopy⟩ : ∃ c' : Record, c' = (c.body ++ restM.drop c.varSize).take c.length ∧
      c.CopyOf c' := by
    refine ⟨_, rfl, ?_, ?_⟩
    · rw [List.length_take, List.length_append, hbodyLength, List.length_drop]
      omega
    · rw [List.take_take, Nat.min_eq_left hle, ← hbodyLength, List.take_left]
  have hsplit : (s1.bank b).data = hdrM ++ (copies ++ [c']).flatten ++
      (c.body ++ restM.drop c.varSize).drop c.length := by
    rw [hnew, List.flatten_append, List.flatten_singleton, hc']
    simp only [List.append_assoc, List.take_append_drop]
  have hlength : (s1.bank b).data.length = f.length := hreads.on.length.trans h.length
  have htail : (s1.bank b).tail = (s1.bank b).bankSize := by
    have hsame : (s1.bank b).tail = (s.bank b).tail := by rw [hbank]
    rw [hsame, h.tail, Bank.bankSize, Bank.bankSize, hlength, h.length]
  have hholds : (s1.bank b).Holds (recordsEnd pre) c' := by
    refine ⟨⟨hdrM ++ copies.flatten, (c.body ++ restM.drop c.varSize).drop c.length, ?_, ?_⟩,
      hcopy.sized hsized, ?_, Nat.le_of_eq htail, ?_⟩
    · rw [hnew, hc', List.append_assoc (hdrM ++ copies.flatten), List.take_append_drop]
    · rw [List.length_append, h.header, ← hend, recordsEnd]
    · rw [htail, Bank.bankSize, hlength, hcopy.length]
      omega
    · rw [Bank.bankSize, hlength]
      exact hsmall
  have hinUse1 : (s1.bank b).inUse = inUseOf copies := by rw [hbank, ← hinUse]
  have hlimit := inUseOf_le copies
  refine ⟨c', hcopy, hholds.parse_named (hcopy.named hsized hterminated), ?_⟩
  have hforall : List.Forall₂ Record.CopyOf (pre ++ [c]) (copies ++ [c']) :=
    List.rel_append hcopies (.cons hcopy .nil)
  have hcount := inUseOf_concat copies c'
  cases hvalid : Record.valid c' with
  | true =>
    rw [if_pos rfl]
    rw [hvalid, if_pos rfl] at hcount
    refine ⟨h.header, ?_, ?_, ?_, copies ++ [c'], (c.body ++ restM.drop c.varSize).drop c.length, ?_,
      hforall, ?_⟩
    · exact (congrFun hreads.flash b).trans h.flash
    · rw [bank_setBank_self]
      exact hlength
    · rw [bank_setBank_self]
      exact htail
    · rw [bank_setBank_self]
      exact hsplit
    · rw [bank_setBank_self, hcount, hinUse1]
      dsimp only
      rw [Arch.add_of_lt (by rw [hcopy.length]; omega)]
  | false =>
    rw [if_neg Bool.false_ne_true]
    rw [hvalid, if_neg Bool.false_ne_true, Nat.add_zero] at hcount
    exact ⟨h.header, (congrFun hreads.flash b).trans h.flash, hlength, htail, copies ++ [c'], _, hsplit,
      hforall, hinUse1.trans hcount.symm⟩

/-- The tail of a bank has been found behind the records `cs` of its content `f`. -/
structure FoundTail (f hdr rest : List Byte) (cs : List Record) (k : Bank) (tail : Nat) :
    Prop where
  header : hdr.length = firstVariableOffset
  length : k.data.length = f.length
  copies : ∃ copies : List Record, ∃ restM, k.data = hdr ++ copies.flatten ++ restM ∧
    List.Forall₂ Record.CopyOf cs copies ∧ k.inUse = inUseOf copies
  tail : (tail = recordsEnd cs ∧ (rest = [] ∨ sizeofVariable + 1 + 2 + 1 ≤ rest.length)) ∨
    (tail = k.bankSize ∧ rest.length < sizeofVariable + 1 + 2 + 1)

theorem Scanned.found {tail : Nat} (h : Scanned f hdr b cs s)
    (htail : (tail = recordsEnd cs ∧ (rest = [] ∨ sizeofVariable + 1 + 2 + 1 ≤ rest.length)) ∨
      (tail = (s.bank b).bankSize ∧ rest.length < sizeofVariable + 1 + 2 + 1)) :
    FoundTail f hdr rest cs (s.bank b) tail :=
  ⟨h.header, h.length, h.copies, htail⟩

/-- The states of the records are the same in the copy as on the device. -/
theorem getD_stateOffsets {copies : List Record} (h : List.Forall₂ Record.CopyOf cs copies)
    (hsized : ∀ c ∈ cs, c.Sized) (p p' r r' : List Byte) (hlength : p'.length = p.length)
    {i : Nat} (hi : i ∈ stateOffsets p.length copies) :
    (p ++ copies.flatten ++ r).getD i 0 = (p' ++ cs.flatten ++ r').getD i 0 := by
  induction h generalizing p p' with
  | nil => cases hi
  | @cons c c' cs copies hcopy hrest ih =>
    have hc := hsized c List.mem_cons_self
    have hlarge := hc.large'
    have hle := hc.varSize_le
    have hvarSize := hcopy.varSize_eq hc
    have hsame := hcopy.length
    have hat : ∀ (q : List Byte) (x : Record) (l : List Byte), c.varSize ≤ x.length →
        (q ++ (x ++ l)).getD (q.length + (c.varSize - 1)) 0 = x.getD (c.varSize - 1) 0 := by
      intro q x l hx
      rw [List.getD_eq_getElem?_getD, List.getElem?_append_right (by omega),
        Nat.add_sub_cancel_left, List.getElem?_append_left (by omega),
        List.getD_eq_getElem?_getD]
    rw [List.flatten_cons, List.flatten_cons, List.append_assoc, List.append_assoc]
    cases hi with
    | head =>
      have hstate := hcopy.stateByte_eq hc
      rw [Record.stateByte, Record.stateByte, hvarSize] at hstate
      rw [hvarSize, List.append_assoc, hat p c' _ (by omega), ← hlength, List.append_assoc,
        hat p' c _ hle, hstate]
    | tail _ hi =>
      have hrecursive := ih (fun x hx => hsized x (List.mem_cons_of_mem c hx)) (p ++ c') (p' ++ c)
        (by rw [List.length_append, List.length_append, hlength, hsame])
        (by rwa [List.length_append])
      simpa only [List.append_assoc] using hrecursive

/-- A bank that has been read to its tail is kept. -/
theorem FoundTail.kept {g : Regime} {k : Bank} {tail : Nat}
    (h : FoundTail f hdrM rest cs k tail) (hstored : Stored g f hdr cs rest)
    (hsmall : f.length < 2 ^ 32)
    (hbelow : g.erased → ∀ i, i < firstVariableOffset → BitsOff (hdrM.getD i 0) (f.getD i 0))
    (hstate : g.erased → hdrM.getD 7 0 = k.state ^^^ 0xFF) :
    ({ k with tail } : Bank).Kept g f := by
  obtain ⟨copies, restM, hdata, hcopies, hinUse⟩ := h.copies
  have hend := recordsEnd_copies hcopies
  have hcopy : ∀ c' ∈ copies, ∃ c ∈ cs, Record.CopyOf c c' := by
    intro c' hc'
    obtain ⟨i, hi, rfl⟩ := List.mem_iff_getElem.mp hc'
    have hlength := hcopies.length_eq
    exact ⟨cs[i], List.getElem_mem _, hcopies.get (by omega) hi⟩
  have hheader : ∀ i, i < firstVariableOffset → k.data.getD i 0 = hdrM.getD i 0 := by
    intro i hi
    rw [hdata, List.append_assoc, List.getD_eq_getElem?_getD,
      List.getElem?_append_left (by rw [h.header]; exact hi), List.getD_eq_getElem?_getD]
  have hlengthF := hstored.length_eq
  have hlengthK : k.data.length = recordsEnd copies + restM.length := by
    rw [hdata, List.length_append, List.length_append, h.header, recordsEnd]
  have hlength := h.length
  refine @Bank.Kept.intro g _ _ hdrM restM copies ⟨hdata, h.header, ?_, ?_, ?_⟩ h.length.symm ?_
    (fun _ => hinUse) ?_
  · intro c' hc'
    obtain ⟨c, hc, hcopy⟩ := hcopy c' hc'
    exact hcopy.sized (hstored.sized c hc)
  · obtain ⟨htail, -⟩ | ⟨htail, hshort⟩ := h.tail
    · exact .inl (htail.trans hend.symm)
    · exact .inr ⟨htail, by omega⟩
  · change k.data.length < 2 ^ 32
    omega
  · intro _ c' hc'
    obtain ⟨c, hc, hcopy⟩ := hcopy c' hc'
    exact hcopy.named (hstored.sized c hc) (hstored.terminated c hc)
  · intro hg _
    refine ⟨fun i hi => ?_, fun htail i hle hlt => ?_, ?_⟩
    · obtain hi | hi := hi
      · exact (hheader i hi).symm ▸ hbelow hg i hi
      · rw [← h.header] at hi
        have hsame := getD_stateOffsets hcopies hstored.sized hdrM hdr restM rest
          (hstored.header.trans h.header.symm) hi
        rw [← hdata, ← hstored.content] at hsame
        change BitsOff (k.data.getD i 0) (f.getD i 0)
        rw [hsame]
        exact BitsOff.refl _
    · -- what is behind the records is free space, or there is nothing
      change tail ≤ i at hle
      change tail = recordsEnd copies at htail
      have hlong : sizeofVariable + 1 + 2 + 1 ≤ rest.length := by
        obtain ⟨-, hnil | hlong⟩ | ⟨htail', hshort⟩ := h.tail
        · rw [hnil, List.length_nil] at hlengthF
          omega
        · exact hlong
        · have hsize : k.bankSize = k.data.length := rfl
          omega
      have hbyte := hstored.free.erased hg hlong
      have hoff : (hdr ++ cs.flatten).length = recordsEnd cs := by
        rw [List.length_append, hstored.header, recordsEnd]
      have hindex : i - recordsEnd cs < rest.length := by omega
      rw [hstored.content, List.getD_eq_getElem?_getD, List.getElem?_append_right (by omega),
        hoff, List.getElem?_eq_getElem hindex, Option.getD_some]
      exact hbyte _ (List.getElem_mem hindex)
    · change k.data.getD 7 0 = k.state ^^^ 0xFF
      rw [hheader 7 (by decide)]
      exact hstate hg

/-- The size field that the pass reads. -/
theorem Loaded.size {off : Nat} (h : Loaded b off sizeofVariable s s1)
    (hlength : (s.bank b).data.length = (s.flash b).length)
    (hok : ¬ (s1.bank b).deviceError = true) :
    readUint16 (s1.bank b).data off = .ok (leNat (slice (s.flash b) off 2)) := by
  have hfits := h.fits
  have htwo : 2 ≤ sizeofVariable := Nat.le_of_ble_eq_true rfl
  have hbytes : (slice (s.flash b) off sizeofVariable).length = sizeofVariable :=
    length_slice (by omega)
  obtain herror | hbank := h.outcome
  · exact absurd herror hok
  · have hlen : (s1.bank b).data.length = (s.bank b).data.length := h.on.length
    have hwhole := slice_splice (l := (s.bank b).data)
      (show off + (slice (s.flash b) off sizeofVariable).length ≤ (s.bank b).data.length by omega)
    have hdata : slice (s1.bank b).data (off + 0) 2 = slice (s.flash b) (off + 0) 2 := by
      rw [← slice_slice _ htwo, ← slice_slice _ htwo, hbank]
      dsimp only
      rw [hbytes] at hwhole
      rw [hwhole]
    rw [Nat.add_zero] at hdata
    rw [readUint16, readBuffer, if_pos (by omega), hdata]
    rfl

/-- The pass over the records of a new bank. -/
theorem findTail_scans {g : Regime} (hstored : Stored g f hdr (pre ++ post) rest)
    (hsmall : f.length < 2 ^ 32) (fuel : Nat) (h : Scanned f hdrM b pre s) :
    Ensures (s.findTail P b fuel (recordsEnd pre)) fun r =>
      Reads b s r.2 ∧ ((r.2.bank b).deviceError = true ∨
        ((r.2.bank b).state = (s.bank b).state ∧
          FoundTail f hdrM rest (pre ++ post) (r.2.bank b) r.1)) := by
  induction post generalizing pre s fuel with
  | nil =>
    have htotal := hstored.length_eq
    rw [List.append_nil] at htotal hstored ⊢
    have hsize : (s.bank b).bankSize = f.length := h.length
    cases fuel with
    | zero => exact Ensures.error
    | succ fuel =>
      rw [findTail]
      dsimp only
      refine Ensures.ite (fun hend => Ensures.pure ⟨.refl b s, .inr ⟨rfl, h.found
        (.inl ⟨rfl, .inl (List.eq_nil_of_length_eq_zero (by omega))⟩)⟩⟩) fun _ => ?_
      refine Ensures.ite (fun hshort => Ensures.pure ⟨.refl b s, .inr ⟨rfl, h.found
        (.inr ⟨rfl, by omega⟩)⟩⟩) fun hlong => ?_
      refine Ensures.bind (rtVarReadStore_loaded P s b _ sizeofVariable) fun s1 h1 => ?_
      refine Ensures.ite (fun herror => Ensures.pure ⟨h1.reads, .inl herror⟩) fun hok => ?_
      have hread := h1.size (h.length.trans (congrArg List.length h.flash).symm) hok
      have hmark : slice (s.flash b) (recordsEnd pre) 2 = slice rest 0 2 := by
        have hoff : recordsEnd pre = (hdr ++ pre.flatten).length + 0 := by
          rw [List.length_append, hstored.header, recordsEnd, Nat.add_zero]
        rw [h.flash, hstored.content, hoff, slice_append_right]
      rw [hmark] at hread
      rw [hread]
      have hbank := h1.outcome.resolve_left hok
      have hlong' : sizeofVariable + 1 + 2 + 1 ≤ rest.length := by omega
      have hmarked : leNat (slice rest 0 2) = 0xFFFF ∨ leNat (slice rest 0 2) = 0 :=
        hstored.free.marked.resolve_left (by omega)
      refine Ensures.ite (fun _ => Ensures.pure ⟨h1.reads, .inr ⟨by rw [hbank], ?_⟩⟩) fun hnot => ?_
      · obtain ⟨copies, restM, hdata, hcopies, hinUse⟩ := h.copies
        refine ⟨h.header, h1.on.length.trans h.length, ⟨copies,
          slice (s.flash b) (recordsEnd pre) sizeofVariable ++ restM.drop
            (slice (s.flash b) (recordsEnd pre) sizeofVariable).length, ?_, hcopies, ?_⟩,
          .inl ⟨rfl, .inr hlong'⟩⟩
        · rw [hbank]
          dsimp only
          rw [← recordsEnd_copies hcopies, splice_records hdata h.header]
        · rw [hbank]
          exact hinUse
      · simp only [Bool.or_eq_true, decide_eq_true_eq] at hnot
        exact absurd hmarked hnot
  | cons c post ih =>
    have hsized : c.Sized := hstored.sized c (List.mem_append_right _ List.mem_cons_self)
    have hlarge := hsized.large'
    have hle := hsized.varSize_le
    have hlt := c.varSize_lt
    have htotal := hstored.length_eq
    rw [recordsEnd_append, List.flatten_cons, List.length_append] at htotal
    have hsize : (s.bank b).bankSize = f.length := h.length
    have hnext : pre ++ c :: post = (pre ++ [c]) ++ post := by simp
    have htwenty : sizeofVariable = 20 := rfl
    cases fuel with
    | zero => exact Ensures.error
    | succ fuel =>
      rw [findTail]
      dsimp only
      rw [if_neg (by omega), if_neg (by omega)]
      refine Ensures.bind (rtVarReadStore_loaded P s b _ sizeofVariable) fun s1 h1 => ?_
      refine Ensures.ite (fun herror => Ensures.pure ⟨h1.reads, .inl herror⟩) fun hok => ?_
      have hread := h1.size (h.length.trans (congrArg List.length h.flash).symm) hok
      have hfield : slice f (recordsEnd pre + 0) 2 = slice c 0 2 :=
        hstored.slice_at (by omega)
      rw [Nat.add_zero] at hfield
      rw [h.flash, hfield] at hread
      have hbank := h1.outcome.resolve_left hok
      have hmask : varSizeMask (leNat (slice c 0 2)) = c.varSize := rfl
      have hzero : leNat (slice c 0 2) ≠ 0 := by
        intro hzero
        rw [hzero] at hmask
        have : varSizeMask 0 = 0 := rfl
        omega
      have hmarker := hsized.marker
      have hsize1 : (s1.bank b).bankSize = f.length := h1.on.length.trans h.length
      have hsub : P.arch.sub c.varSize sizeofVariable = c.varSize - sizeofVariable :=
        Arch.sub_of_le (by omega) (by omega)
      have hadd : P.arch.add (c.varSize - sizeofVariable) (recordsEnd pre) =
          c.varSize - sizeofVariable + recordsEnd pre := Arch.add_of_lt (by omega)
      rw [hread]
      simp only [bind, Except.bind]
      rw [if_neg (by simp [hmarker, hzero]), hmask, hsub, hadd, if_neg (by
        simp only [Bool.or_eq_true, decide_eq_true_eq]
        omega)]
      change Ensures (rtVarReadStore P b (recordsEnd pre + sizeofVariable)
        (c.varSize - sizeofVariable) s1 >>= _) _
      refine Ensures.bind (rtVarReadStore_loaded P s1 b _ _) fun s2 h2 => ?_
      have hreads := h1.reads.trans h2.reads
      by_cases hok2 : (s2.bank b).deviceError = true
      · -- what was read is not the record, but the pass ends
        refine Ensures.bind (Ensures.self _) fun r _ => ?_
        cases r with
        | none =>
          exact (findTail_failed P b fuel _ s2 hok2).mono fun r hr =>
            ⟨hreads.trans hr.1, .inl hr.2⟩
        | some info =>
          dsimp only
          split
          · refine (findTail_failed P b fuel _ _ (by rw [bank_setBank_self]; exact hok2)).mono
              fun r hr => ⟨hreads.trans (Reads.trans ?_ hr.1), .inl hr.2⟩
            exact ⟨.setBank rfl rfl rfl, rfl, rfl⟩
          · exact (findTail_failed P b fuel _ s2 hok2).mono fun r hr =>
              ⟨hreads.trans hr.1, .inl hr.2⟩
      · have hbank2 := h2.outcome.resolve_left hok2
        have hwhole : s2.bank b = { s.bank b with
            data := splice (s.bank b).data (recordsEnd pre)
              (slice f (recordsEnd pre) c.varSize) } := by
          rw [hbank2, hbank]
          dsimp only
          rw [h1.flash, h.flash, splice_loads h.length (by omega)]
          congr 2
          congr 1
          omega
        obtain ⟨c', hcopy, hparse, hscanned⟩ := h.next (P := P) hstored hsmall hreads hwhole
        rw [hparse]
        change Ensures (findTail P b fuel (c'.info (recordsEnd pre)).nextVarOffset
          (if (c'.info (recordsEnd pre)).fields.isSome = true then s2.setBank b
            { s2.bank b with
              inUse := P.arch.add (s2.bank b).inUse (c'.info (recordsEnd pre)).varSize }
            else s2)) _
        have hisSome : (c'.info (recordsEnd pre)).fields.isSome = c'.valid := c'.isSome_fields _
        have hoffset : (c'.info (recordsEnd pre)).nextVarOffset = recordsEnd (pre ++ [c]) := by
          rw [recordsEnd_concat, ← hcopy.length]
          rfl
        have hvarSize : (c'.info (recordsEnd pre)).varSize = c'.length := rfl
        rw [hisSome, hoffset, hvarSize]
        rw [hnext] at hstored
        refine (ih hstored fuel hscanned).mono fun r hr => ?_
        have hcount : Reads b s2 (if c'.valid = true then s2.setBank b
            { s2.bank b with inUse := P.arch.add (s2.bank b).inUse c'.length } else s2) ∧
            ((if c'.valid = true then s2.setBank b
              { s2.bank b with inUse := P.arch.add (s2.bank b).inUse c'.length }
              else s2).bank b).state = (s2.bank b).state := by
          split
          · exact ⟨⟨.setBank rfl rfl rfl, rfl, rfl⟩, by rw [bank_setBank_self]⟩
          · exact ⟨.refl b s2, rfl⟩
        refine ⟨(hreads.trans hcount.1).trans hr.1, hr.2.imp id fun hfound => ?_⟩
        refine ⟨hfound.1.trans (hcount.2.trans (by rw [hwhole])), ?_⟩
        rw [hnext]
        exact hfound.2

end State

end EfiCore.Var
