import EfiCore.Dec.Decompress
import EfiCore.Lib.Kraft
import EfiCore.Lib.Meets

/-! # Sets of code lengths that are not those of a code

`MakeTable` compares a sum of 16 bits with 0, which is also what a multiple of the code space gives,
and what it returns for the char&len set is dropped.
-/

namespace EfiCore.Dec

open EfiCore.Lib

variable {src : Nat → Byte} {sd : ScratchData} {left : Nat}

/-! ## MakeTable -/

/-- The start of the codes of more than `k` bits: what the shorter ones take, in 16 bits. -/
theorem codeStart_succ (lens : List Nat) (k : Nat) :
    codeStart (fun i => lens.count i) (k + 1) = kraftUpTo 16 k lens % 2 ^ 16 := by
  induction k with
  | zero =>
    rw [codeStart, if_pos rfl, kraftUpTo_zero, Nat.zero_mod]
  | succ k ih =>
    rw [codeStart, if_neg (Nat.succ_ne_zero k), ih, kraftUpTo_succ, Nat.shiftLeft_eq,
      Nat.mod_add_mod]

/-- No length is too long for `Count`. -/
def Short (lens : List Nat) : Prop := ∀ len ∈ lens, len ≤ 16

theorem codeStart_kraft {lens : List Nat} (h : Short lens) :
    codeStart (fun i => lens.count i) 17 = kraftSum 16 lens % 2 ^ 16 := by
  rw [codeStart_succ, kraftUpTo_eq h]

theorem any_long_iff (lens : List Nat) :
    (lens.any fun len => 16 < len) = true ↔ ¬ Short lens := by
  simp [Short]

/-- The sum shows that the lengths are not those of a complete code. -/
def Unbalanced (lens : List Nat) : Prop := Short lens ∧ kraftSum 16 lens % 2 ^ 16 ≠ 0

/-- `MakeTable` finds out that the lengths are wrong exactly if the sum shows it. -/
theorem makeTable_bad_iff (numOfChar : Nat) (bitLen : Nat → Nat) (tableBits : Nat) (t : Trees) :
    (∃ t', makeTable numOfChar bitLen tableBits t = some (t', false)) ↔
      Unbalanced ((List.range numOfChar).map bitLen) := by
  unfold makeTable
  dsimp only
  by_cases hlong : (((List.range numOfChar).map bitLen).any fun len => 16 < len) = true
  · rw [if_pos hlong]
    refine iff_of_false (by simp) fun h => (any_long_iff _).mp hlong h.1
  rw [if_neg hlong]
  have hshort : Short ((List.range numOfChar).map bitLen) := by
    by_contra h
    exact hlong ((any_long_iff _).mpr h)
  rw [codeStart_kraft hshort]
  by_cases hsum : kraftSum 16 ((List.range numOfChar).map bitLen) % 2 ^ 16 ≠ 0
  · rw [if_pos hsum]
    exact iff_of_true ⟨t, rfl⟩ ⟨hshort, hsum⟩
  · rw [if_neg hsum]
    refine iff_of_false ?_ fun h => hsum h.2
    rintro ⟨t', ht'⟩
    obtain ⟨s, -, hs⟩ := Option.map_eq_some_iff.mp ht'
    cases hs

/-! ## Sets of lengths -/

namespace CodeTable

/-- The lengths are those of a complete prefix code. -/
def Complete (t : CodeTable) : Prop :=
  t.lens.length = t.set.symbols ∧ CompleteCode 16 t.lens

/-- The set is one whose check is not dropped, and the check fails. -/
def Rejected (t : CodeTable) : Prop :=
  t.set ≠ .charLen ∧ t.lens.length = t.set.symbols ∧ Unbalanced t.lens

end CodeTable

/-- No set is rejected. -/
def Clean (tables : List CodeTable) : Prop := ∀ t ∈ tables, ¬ t.Rejected

/-- No set has been rejected so far, and `left` bytes are left for the next windows. -/
structure Good (left : Nat) (sd : ScratchData) : Prop where
  flag : sd.badTableFlag = false
  clean : Clean sd.tables
  origSize : sd.origSize = left

/-- A set has been rejected. -/
structure Flagged (sd : ScratchData) : Prop where
  flag : sd.badTableFlag = true
  rejected : ∃ t ∈ sd.tables, t.Rejected

/-- If the function is stuck, no set has been rejected. -/
def StuckClean (e : Stuck) : Prop := Clean e.tables

theorem Clean.cons {t : CodeTable} {tables : List CodeTable} (h : Clean tables)
    (ht : ¬ t.Rejected) : Clean (t :: tables) := by
  intro t' ht'
  rcases List.mem_cons.mp ht' with rfl | ht'
  · exact ht
  · exact h t' ht'

/-! ## Bits and symbols -/

/-- The flag, the sets and what is left are not changed. -/
structure SameTables (sd sd' : ScratchData) : Prop where
  flag : sd'.badTableFlag = sd.badTableFlag
  tables : sd'.tables = sd.tables
  origSize : sd'.origSize = sd.origSize

theorem SameTables.good {sd' : ScratchData} (h : SameTables sd sd') (hgood : Good left sd) :
    Good left sd' where
  flag := h.flag.trans hgood.flag
  clean := by
    rw [h.tables]
    exact hgood.clean
  origSize := h.origSize.trans hgood.origSize

theorem fillLoop_same (src : Nat → Byte) (fuel : Nat) (sd : ScratchData) (numOfBits : Nat) :
    SameTables sd (fillLoop src fuel sd numOfBits).1 := by
  induction fuel generalizing sd numOfBits with
  | zero => exact ⟨rfl, rfl, rfl⟩
  | succ fuel ih =>
    rw [fillLoop]
    split
    · exact ⟨rfl, rfl, rfl⟩
    · split
      · exact ⟨(ih _ _).flag, (ih _ _).tables, (ih _ _).origSize⟩
      · exact ⟨(ih _ _).flag, (ih _ _).tables, (ih _ _).origSize⟩

theorem fillBuf_same (sd : ScratchData) (numOfBits : Nat) :
    SameTables sd (fillBuf src sd numOfBits) := by
  obtain ⟨hflag, htables, horigSize⟩ := fillLoop_same src (numOfBits + 1)
    { sd with bitBuf := (sd.bitBuf <<< numOfBits) % 2 ^ 16 } numOfBits
  exact ⟨hflag, htables, horigSize⟩

theorem Good.fillBuf (h : Good left sd) (src : Nat → Byte) (numOfBits : Nat) :
    Good left (fillBuf src sd numOfBits) :=
  (fillBuf_same sd numOfBits).good h

theorem Good.getBits (h : Good left sd) (src : Nat → Byte) (numOfBits : Nat) :
    Good left (getBits src sd numOfBits).1 :=
  h.fillBuf src numOfBits

theorem walk_meets (limit fuel mask val : Nat) (h : Clean sd.tables) :
    Meets StuckClean (walk sd limit fuel mask val) fun _ => True := by
  induction fuel generalizing mask val with
  | zero => exact .error h
  | succ fuel ih =>
    rw [walk]
    refine .ite (fun _ => .error h) fun _ => ?_
    exact .ite (fun _ => ih _ _) fun _ => .ok trivial

theorem lookUp_meets (table : Nat → Nat) (tableBits limit : Nat) (h : Clean sd.tables) :
    Meets StuckClean (lookUp sd table tableBits limit) fun _ => True :=
  .ite (fun _ => walk_meets _ _ _ _ h) fun _ => .ok trivial

theorem decodeP_meets (h : Good left sd) :
    Meets StuckClean (decodeP src sd) fun r => Good left r.1 := by
  refine .bind (lookUp_meets _ _ _ h.clean) fun val _ => ?_
  exact .ite (fun _ => .ok ((h.fillBuf src _).getBits src _)) fun _ => .ok (h.fillBuf src _)

/-! ## Code lengths -/

theorem Good.record (h : Good left sd) {set : CodeSet} {count : Nat} {lens : Nat → Nat}
    (ht : ¬ CodeTable.Rejected ⟨set, (List.range count).map lens⟩) :
    Good left (sd.record set count lens) := ⟨h.flag, h.clean.cons ht, h.origSize⟩

/-- A set that is too long for its array is not checked at all. -/
theorem overflow_clean (h : Good left sd) {set : CodeSet} {count : Nat} (lens : Nat → Nat)
    (hcount : set = .charLen ∨ npt < count) : StuckClean (sd.overflow set count lens) := by
  refine h.clean.cons fun ht => ?_
  obtain ⟨hset, hlen, -⟩ := ht
  rcases hcount with rfl | hcount
  · exact hset rfl
  · rw [List.length_map, List.length_range] at hlen
    dsimp only at hlen
    cases set <;> simp only [CodeSet.symbols, nt, nc, np, npt] at hlen hcount <;>
      first | omega | exact hset rfl

theorem ptLenLoop_meets (set : CodeSet) (n special fuel i : Nat) (h : Good left sd) :
    Meets StuckClean (ptLenLoop src set n special fuel sd i) fun r => Good left r.1 := by
  induction fuel generalizing sd i with
  | zero => exact .ok h
  | succ fuel ih =>
    rw [ptLenLoop]
    refine .ite (fun _ => .ok h) fun _ => .ite (fun hfull => ?_) fun _ => ?_
    · exact .error (overflow_clean h _ (.inr (Nat.lt_succ_of_le hfull)))
    dsimp only
    generalize hlen : (if sd.bitBuf >>> (16 - 3) = 7 then
      sd.bitBuf >>> (16 - 3) + leadingOnes sd.bitBuf (16 - 3) else sd.bitBuf >>> (16 - 3)) = c
    have hfilled := h.fillBuf src (if c < 7 then 3 else c - 3)
    have hwritten : Good left { fillBuf src sd (if c < 7 then 3 else c - 3) with
        ptLen := Function.update (fillBuf src sd (if c < 7 then 3 else c - 3)).ptLen i c } :=
      ⟨hfilled.flag, hfilled.clean, hfilled.origSize⟩
    refine .ite (fun _ => .ite (fun hfull => ?_) fun _ => ih _ ?_) fun _ => ih _ hwritten
    · exact .error (overflow_clean (hwritten.getBits src 2) _ (.inr hfull))
    · exact ⟨(hwritten.getBits src 2).flag, (hwritten.getBits src 2).clean, (hwritten.getBits src 2).origSize⟩

/-- What a set that has just been read makes of the flag and the sets. -/
structure SetRead (left : Nat) (sd : ScratchData) (ok : Bool) : Prop where
  origSize : sd.origSize = left
  clean : ok = true → Clean sd.tables
  rejected : ok = false → ∃ t ∈ sd.tables, t.Rejected

theorem makePTTable_meets (h : Good left sd) {set : CodeSet} (hset : set ≠ .charLen) :
    Meets StuckClean (makePTTable (sd.record set set.symbols sd.ptLen) set.symbols) fun r =>
      SetRead left r.1 r.2 := by
  have hbad := makeTable_bad_iff set.symbols sd.ptLen 8 ⟨sd.left, sd.right, sd.ptTable⟩
  have hrejected : CodeTable.Rejected ⟨set, (List.range set.symbols).map sd.ptLen⟩ ↔
      Unbalanced ((List.range set.symbols).map sd.ptLen) := by
    refine ⟨fun ht => ht.2.2, fun hunbalanced => ⟨hset, ?_, hunbalanced⟩⟩
    rw [List.length_map, List.length_range]
  have hclean : ¬ Unbalanced ((List.range set.symbols).map sd.ptLen) →
      Clean (sd.record set set.symbols sd.ptLen).tables := fun hbalanced =>
    h.clean.cons (mt hrejected.mp hbalanced)
  unfold makePTTable
  change Meets StuckClean ((makeTable set.symbols sd.ptLen 8
    ⟨sd.left, sd.right, sd.ptTable⟩).elim _ _) _
  cases hmake : makeTable set.symbols sd.ptLen 8 ⟨sd.left, sd.right, sd.ptTable⟩ with
  | none =>
    rw [hmake] at hbad
    refine .error (hclean (mt hbad.mpr ?_))
    rintro ⟨t', ht'⟩
    cases ht'
  | some r =>
    rw [hmake] at hbad
    refine .ok ⟨h.origSize, fun hok => hclean (mt hbad.mpr ?_), fun hok => ?_⟩
    · rintro ⟨t', ht'⟩
      rw [Option.some.inj ht'] at hok
      cases hok
    · refine ⟨_, List.mem_cons_self, hrejected.mpr (hbad.mp ⟨r.1, ?_⟩)⟩
      rw [← hok]

theorem readPTLen_meets (src : Nat → Byte) (h : Good left sd) (set : CodeSet)
    (hset : set ≠ .charLen) (nbit special : Nat) :
    Meets StuckClean (readPTLen src sd set set.symbols nbit special) fun r => SetRead left r.1 r.2 := by
  have hn := h.getBits src nbit
  unfold readPTLen
  dsimp only
  refine .ite (fun _ => ?_) fun _ => ?_
  · have hc := hn.getBits src nbit
    exact .ok ⟨hc.origSize, fun _ => hc.clean, fun hok => by cases hok⟩
  · refine .bind (ptLenLoop_meets _ _ _ _ _ hn) fun read hread => ?_
    have hpadded : Good left { read.1 with ptLen := fill read.1.ptLen read.2 set.symbols 0 } :=
      ⟨hread.flag, hread.clean, hread.origSize⟩
    exact makePTTable_meets hpadded hset

theorem cLenLoop_meets (n fuel i : Nat) (h : Good left sd) :
    Meets StuckClean (cLenLoop src n fuel sd i) fun r => Good left r.1 := by
  induction fuel generalizing sd i with
  | zero => exact .ok h
  | succ fuel ih =>
    rw [cLenLoop]
    refine .ite (fun _ => .ok h) fun _ => ?_
    refine .bind (lookUp_meets _ _ _ h.clean) fun c _ => ?_
    have hfilled := h.fillBuf src (sd.ptLen c)
    refine .ite (fun _ => ?_) fun _ => .ite (fun _ => ?_) fun _ => ih _ ⟨hfilled.flag, hfilled.clean, hfilled.origSize⟩
    · -- a run of symbols without a code
      generalize hrun : (if c = 0 then (fillBuf src sd (sd.ptLen c), 1) else _) = r
      have hr : Good left r.1 := by
        rw [← hrun]
        split
        · exact hfilled
        · split
          · exact hfilled.getBits src 4
          · exact hfilled.getBits src 9
      refine .ite (fun _ => .error (overflow_clean hr _ (.inl rfl))) fun _ => ih _ ?_
      exact ⟨hr.flag, hr.clean, hr.origSize⟩
    · exact .error (overflow_clean hfilled _ (.inl rfl))

theorem readCLen_meets (h : Good left sd) : Meets StuckClean (readCLen src sd) (Good left) := by
  have hn := h.getBits src 9
  unfold readCLen
  dsimp only
  refine .ite (fun _ => ?_) fun _ => ?_
  · have hc := hn.getBits src 9
    exact .ok ⟨hc.flag, hc.clean, hc.origSize⟩
  · refine .bind (cLenLoop_meets _ _ _ hn) fun read hread => ?_
    have hgood : Good left { read.1 with cLen := fill read.1.cLen read.2 nc 0 } :=
      ⟨hread.flag, hread.clean, hread.origSize⟩
    -- whatever `MakeTable` returns for this set, it is not looked at
    have hrecord : Good left ({ read.1 with cLen := fill read.1.cLen read.2 nc 0 }.record .charLen nc
        (fill read.1.cLen read.2 nc 0)) := hgood.record fun ht => ht.1 rfl
    unfold makeCTable
    cases makeTable nc _ 12 _ with
    | none => exact .error hrecord.clean
    | some r => exact .ok ⟨hrecord.flag, hrecord.clean, hrecord.origSize⟩

/-! ## Blocks -/

/-- The set is rejected, and the flag tells it, or no set has been rejected. -/
def Settled (left : Nat) (sd : ScratchData) : Prop := Good left sd ∨ Flagged sd

theorem SetRead.settled {ok : Bool} (h : SetRead left sd ok) :
    Settled left { sd with badTableFlag := !ok } := by
  cases ok with
  | true => exact .inl ⟨rfl, h.clean rfl, h.origSize⟩
  | false => exact .inr ⟨rfl, h.rejected rfl⟩

theorem Settled.good (h : Settled left sd) (hflag : ¬ sd.badTableFlag = true) : Good left sd :=
  h.resolve_right fun hflagged => hflag hflagged.flag

theorem startBlock_meets (h : Good left sd) :
    Meets StuckClean (startBlock src sd) (Settled left) := by
  have hsize := h.getBits src 16
  unfold startBlock
  generalize getBits src sd 16 = size at hsize
  dsimp only
  have hblock : Good left { size.1 with blockSize := size.2 } :=
    ⟨hsize.flag, hsize.clean, hsize.origSize⟩
  have hextra := readPTLen_meets src hblock .extra (by decide) 5 3
  refine .bind hextra fun extra hextra => ?_
  have hsettled := hextra.settled
  refine .ite (fun _ => .ok hsettled) fun hflag => ?_
  refine .bind (readCLen_meets (hsettled.good hflag)) fun sd hgood => ?_
  have hposition := readPTLen_meets src hgood .position (by decide) 4 0xffff
  exact .bind hposition fun position hposition => .ok hposition.settled

theorem decodeSymbol_meets (h : Good left sd) :
    Meets StuckClean (decodeSymbol src sd) fun r => Good left r.1 := by
  have hgood : Good left { sd with blockSize := (sd.blockSize + 2 ^ 16 - 1) % 2 ^ 16 } :=
    ⟨h.flag, h.clean, h.origSize⟩
  exact .bind (lookUp_meets _ _ _ hgood.clean) fun j _ => .ok (hgood.fillBuf src _)

theorem decodeC_meets (h : Good left sd) :
    Meets StuckClean (decodeC src sd) fun r => Settled left r.1 := by
  refine .ite (fun _ => ?_) fun _ => (decodeSymbol_meets h).mono fun _ => .inl
  refine .bind (startBlock_meets h) fun sd hsettled => ?_
  refine .ite (fun _ => .ok hsettled) fun hflag => ?_
  exact (decodeSymbol_meets (hsettled.good hflag)).mono fun _ => .inl

/-! ## Windows -/

theorem copyLoop_same (limit fuel di : Nat) :
    SameTables sd (copyLoop limit fuel sd di).1 := by
  induction fuel generalizing sd di with
  | zero => exact ⟨rfl, rfl, rfl⟩
  | succ fuel ih =>
    rw [copyLoop]
    dsimp only
    generalize hremain : (sd.bytesRemain + 2 ^ 16 - 1) % 2 ^ 16 = remain
    by_cases hdone : 2 ^ 15 ≤ remain
    · rw [if_pos hdone]
      exact ⟨rfl, rfl, rfl⟩
    rw [if_neg hdone]
    have hcopied : SameTables sd (copyByte { sd with bytesRemain := remain } di) :=
      ⟨rfl, rfl, rfl⟩
    by_cases hlimit : limit ≤ di + 1
    · rw [if_pos hlimit]
      exact hcopied
    · rw [if_neg hlimit]
      have hrest := @ih (copyByte { sd with bytesRemain := remain } di) (di + 1)
      exact ⟨hrest.flag.trans hcopied.flag, hrest.tables.trans hcopied.tables,
        hrest.origSize.trans hcopied.origSize⟩

/-- Only a turn after which the function returns finds a set that is rejected. -/
theorem decodeTurn_meets (di : Nat) (h : Good left sd) :
    Meets StuckClean (decodeTurn src sd di) fun r =>
      Settled left r.1 ∧ (r.2 ≠ none → Good left r.1) := by
  refine .bind (decodeC_meets h) fun r hsettled => ?_
  refine .ite (fun _ => .ok ⟨hsettled, fun hnext => absurd rfl hnext⟩) fun hflag => ?_
  have hr := hsettled.good hflag
  refine .ite (fun _ => ?_) fun _ => ?_
  · have hgood : Good left { r.1 with buffer := Function.update r.1.buffer di r.2 } :=
      ⟨hr.flag, hr.clean, hr.origSize⟩
    exact .ok ⟨.inl hgood, fun _ => hgood⟩
  · refine .bind (decodeP_meets ⟨hr.flag, hr.clean, hr.origSize⟩) fun p hp => ?_
    have hready : Good left { p.1 with dataIdx := (di + 2 ^ 32 - p.2 - 1) % wndSiz } :=
      ⟨hp.flag, hp.clean, hp.origSize⟩
    have hcopied := (copyLoop_same wndSiz copyTurns di).good hready
    exact .ok ⟨.inl hcopied, fun _ => hcopied⟩

theorem decodeLoop_meets (fuel di : Nat) (h : Good left sd) :
    Meets StuckClean (decodeLoop src fuel sd di) (Settled left) := by
  induction fuel generalizing sd di with
  | zero =>
    rw [decodeLoop]
    exact .error h.clean
  | succ fuel ih =>
    rw [decodeLoop]
    refine .bind (decodeTurn_meets di h) fun r hr => ?_
    obtain ⟨hsettled, hnext⟩ := hr
    cases hdi : r.2 with
    | none => exact .ok hsettled
    | some di' => exact ih di' (hnext (by rw [hdi]; exact Option.some_ne_none _))

theorem decode_meets (numOfBytes : Nat) (h : Good left sd) :
    Meets StuckClean (decode src sd numOfBytes) (Settled left) := by
  have hcopied := (copyLoop_same numOfBytes copyTurns 0).good h
  exact .ite (fun _ => .ok (.inl hcopied)) fun _ => decodeLoop_meets _ _ hcopied

/-! ## Decompress -/

/-- What the function returns tells whether a set has been rejected. -/
def Tells (r : Result) : Prop := r.status = .invalidParameter ↔ ∃ t ∈ r.tables, t.Rejected

theorem tells_clean {status : Status} {output : List Nat} {tables : List CodeTable}
    (h : Clean tables) (hstatus : status ≠ .invalidParameter) :
    Tells ⟨status, output, tables⟩ :=
  iff_of_false hstatus fun ⟨t, ht, hrejected⟩ => h t ht hrejected

theorem decompressLoop_meets (dstSize fuel : Nat) (output : List Nat) (h : Good left sd)
    (hroom : output.length + left = dstSize) :
    Meets StuckClean (decompressLoop src dstSize fuel sd output) Tells := by
  induction fuel generalizing sd left output with
  | zero =>
    rw [decompressLoop]
    exact .error h.clean
  | succ fuel ih =>
    rw [decompressLoop]
    refine .ite (fun _ => ?_) fun _ => ?_
    · rw [h.flag, if_neg Bool.false_ne_true]
      exact .ok (tells_clean h.clean (by decide))
    dsimp only
    have hcount : min wndSiz sd.origSize ≤ left := by
      rw [h.origSize]
      exact Nat.min_le_right _ _
    generalize min wndSiz sd.origSize = count at hcount
    refine .bind (decode_meets count h) fun sd' hsettled => ?_
    by_cases hflag : sd'.badTableFlag = true
    · rw [if_pos hflag]
      refine .ok (iff_of_true rfl ?_)
      exact (hsettled.resolve_left fun hgood => by rw [hgood.flag] at hflag; cases hflag).rejected
    have hgood := hsettled.good hflag
    rw [if_neg hflag, if_neg (by omega)]
    refine @ih _ (left - count) _ ⟨hgood.flag, hgood.clean, ?_⟩ ?_
    · dsimp only
      rw [hgood.origSize]
    · rw [List.length_append, List.length_map, List.length_range]
      omega

/-- The sets of lengths that a run has read. -/
def readTables (run : Except Stuck Result) : List CodeTable :=
  match run with
  | .ok r => r.tables
  | .error e => e.tables

/-- The property of a run: if a set that it has read is not that of a code, it returns
    `EFI_INVALID_PARAMETER`. -/
def RejectsMalformed (run : Except Stuck Result) : Prop :=
  (∃ t ∈ readTables run, ¬ t.Complete) → ∃ r, run = .ok r ∧ r.status = .invalidParameter

theorem decompress_meets (src : Nat → Byte) (A : Arch) (srcSize dstSize scratchSize : Nat) :
    Meets StuckClean (decompress src A srcSize dstSize scratchSize) fun r =>
      r.tables = [] ∨ Tells r := by
  unfold decompress
  dsimp only
  refine .ite (fun _ => .ok (.inl rfl)) fun _ => .ite (fun _ => .ok (.inl rfl)) fun _ => ?_
  refine .ite (fun _ => .ok (.inl rfl)) fun _ => .ite (fun _ => .ok (.inl rfl)) fun hsize => ?_
  have hclear : Good (sourceSize src 4)
      (clearScratch (sourceSize src 0) (sourceSize src 4)) := ⟨rfl, by simp [Clean, clearScratch], rfl⟩
  refine (decompressLoop_meets _ _ _ (hclear.fillBuf _ 16) ?_).mono fun _ => .inr
  rw [List.length_nil, Nat.zero_add]
  exact (not_not.mp hsize).symm

theorem decompress_rejectsMalformed_iff (src : Nat → Byte) (A : Arch)
    (srcSize dstSize scratchSize : Nat) :
    RejectsMalformed (decompress src A srcSize dstSize scratchSize) ↔
      (∀ t ∈ readTables (decompress src A srcSize dstSize scratchSize), t.Complete) ∨
      ∃ t ∈ readTables (decompress src A srcSize dstSize scratchSize), t.Rejected := by
  obtain ⟨hok, herror⟩ := decompress_meets src A srcSize dstSize scratchSize
  generalize decompress src A srcSize dstSize scratchSize = run at hok herror ⊢
  cases run with
  | error e =>
    have hclean := herror e rfl
    constructor
    · intro h
      refine .inl fun t ht => ?_
      by_contra hmalformed
      obtain ⟨r, hr, -⟩ := h ⟨t, ht, hmalformed⟩
      cases hr
    · rintro (hcomplete | ⟨t, ht, hrejected⟩)
      · exact fun ⟨t, ht, hmalformed⟩ => absurd (hcomplete t ht) hmalformed
      · exact absurd hrejected (hclean t ht)
  | ok r =>
    rcases hok r rfl with hnone | htells
    · have hempty : readTables (.ok r) = [] := hnone
      rw [hempty]
      refine iff_of_true ?_ (.inl (by simp))
      rintro ⟨t, ht, -⟩
      rw [hempty] at ht
      cases ht
    · constructor
      · intro h
        by_cases hcomplete : ∀ t ∈ readTables (.ok r), t.Complete
        · exact .inl hcomplete
        · push Not at hcomplete
          obtain ⟨r', hr', hstatus⟩ := h hcomplete
          cases hr'
          exact .inr (htells.mp hstatus)
      · rintro (hcomplete | hrejected)
        · exact fun ⟨t, ht, hmalformed⟩ => absurd (hcomplete t ht) hmalformed
        · exact fun _ => ⟨r, rfl, htells.mpr hrejected⟩

/-! ## A set whose check is dropped -/

/-- The bits that are left are 0, they are the symbol 0, and one byte is wanted. -/
structure Drained (tables : List CodeTable) (sd : ScratchData) : Prop where
  bitBuf : sd.bitBuf = 0
  subBitBuf : sd.subBitBuf = 0
  compSize : sd.compSize = 0
  flag : sd.badTableFlag = false
  symbol : sd.cTable 0 = 0
  origSize : sd.origSize = 1
  tables : sd.tables = tables

/-- The block goes on for at least that many symbols. -/
def Lasts (turns : Nat) (sd : ScratchData) : Prop := turns ≤ sd.blockSize ∧ sd.blockSize < 2 ^ 16

section Drained

variable {tables : List CodeTable} {turns : Nat}

theorem fillLoop_blockSize (src : Nat → Byte) (fuel : Nat) (sd : ScratchData) (numOfBits : Nat) :
    (fillLoop src fuel sd numOfBits).1.blockSize = sd.blockSize := by
  induction fuel generalizing sd numOfBits with
  | zero => rfl
  | succ fuel ih =>
    rw [fillLoop]
    split
    · rfl
    · split
      · exact ih _ _
      · exact ih _ _

theorem Drained.fillLoop (h : Drained tables sd) (src : Nat → Byte) (fuel numOfBits : Nat) :
    Drained tables (fillLoop src fuel sd numOfBits).1 := by
  induction fuel generalizing sd numOfBits with
  | zero => exact h
  | succ fuel ih =>
    rw [Dec.fillLoop]
    split
    · exact h
    · dsimp only
      rw [if_neg (by rw [h.compSize]; exact Nat.lt_irrefl 0)]
      have hnext : Drained tables
          { sd with
            bitBuf := sd.bitBuf ||| (sd.subBitBuf <<< (numOfBits - sd.bitCount)) % 2 ^ 16
            subBitBuf := 0
            bitCount := 8 } :=
        ⟨by simp [h.bitBuf, h.subBitBuf], rfl, h.compSize, h.flag, h.symbol, h.origSize, h.tables⟩
      exact ih hnext _

theorem Drained.fillBuf (h : Drained tables sd) (src : Nat → Byte) (numOfBits : Nat) :
    Drained tables (fillBuf src sd numOfBits) := by
  have hshift : Drained tables { sd with bitBuf := (sd.bitBuf <<< numOfBits) % 2 ^ 16 } :=
    ⟨by simp [h.bitBuf], h.subBitBuf, h.compSize, h.flag, h.symbol, h.origSize, h.tables⟩
  have hfilled := hshift.fillLoop src (numOfBits + 1) numOfBits
  refine ⟨?_, hfilled.subBitBuf, hfilled.compSize, hfilled.flag, hfilled.symbol, hfilled.origSize,
    hfilled.tables⟩
  rw [Dec.fillBuf]
  dsimp only
  rw [hfilled.bitBuf, hfilled.subBitBuf, Nat.zero_shiftRight, Nat.or_self]

/-- A turn writes the byte 0 and leaves the rest of the block. -/
theorem decodeSymbol_drained (src : Nat → Byte) (h : Drained tables sd) (hlast : Lasts (turns + 1) sd) :
    ∃ sd', decodeSymbol src sd = .ok (sd', 0) ∧ Drained tables sd' ∧ Lasts turns sd' := by
  obtain ⟨hpos, hlt⟩ := hlast
  have hsize : (sd.blockSize + 2 ^ 16 - 1) % 2 ^ 16 = sd.blockSize - 1 := by omega
  have hnext : Drained tables { sd with blockSize := (sd.blockSize + 2 ^ 16 - 1) % 2 ^ 16 } :=
    ⟨h.bitBuf, h.subBitBuf, h.compSize, h.flag, h.symbol, h.origSize, h.tables⟩
  have hsymbol : lookUp { sd with blockSize := (sd.blockSize + 2 ^ 16 - 1) % 2 ^ 16 } sd.cTable 12
      nc = .ok 0 := by
    simp [lookUp, h.bitBuf, h.symbol, nc]
  refine ⟨_, ?_, hnext.fillBuf src (sd.cLen 0), ?_⟩
  · rw [decodeSymbol, hsymbol]
    rfl
  · unfold Lasts Dec.fillBuf
    rw [fillLoop_blockSize]
    dsimp only
    omega

/-- The turn, when the block goes on or has just begun. -/
theorem decodeTurn_drained {sd' : ScratchData} (hc : decodeC src sd = .ok (sd', 0))
    (h : Drained tables sd') (hlast : Lasts turns sd') (di : Nat) :
    ∃ sd', decodeTurn src sd di = .ok (sd', if wndSiz ≤ di + 1 then none else some (di + 1)) ∧
      Drained tables sd' ∧ Lasts turns sd' := by
  refine ⟨{ sd' with buffer := Function.update sd'.buffer di 0 }, ?_,
    ⟨h.bitBuf, h.subBitBuf, h.compSize, h.flag, h.symbol, h.origSize, h.tables⟩, hlast⟩
  rw [decodeTurn, hc]
  show (if sd'.badTableFlag then _ else _) = _
  rw [if_neg (by rw [h.flag]; exact Bool.false_ne_true)]
  rfl

theorem decodeLoop_drained (fuel : Nat) (h : Drained tables sd) (hlast : Lasts fuel sd) {di : Nat}
    (hfuel : wndSiz ≤ di + fuel) (hdi : di < wndSiz) :
    ∃ sd', decodeLoop src fuel sd di = .ok sd' ∧ Drained tables sd' := by
  induction fuel generalizing sd di with
  | zero => omega
  | succ fuel ih =>
    obtain ⟨sd₁, hsymbol, hdrained, hlasts⟩ := decodeSymbol_drained src h hlast
    have hc : decodeC src sd = .ok (sd₁, 0) := by
      rw [decodeC, if_neg (by have := hlast.1; omega), hsymbol]
    obtain ⟨sd', hturn, hnext, hnextLast⟩ := decodeTurn_drained hc hdrained hlasts di
    rw [decodeLoop, hturn]
    by_cases hend : wndSiz ≤ di + 1
    · rw [if_pos hend]
      exact ⟨sd', rfl, hnext⟩
    · rw [if_neg hend]
      exact ih hnext hnextLast (by omega) (by omega)

/-- Nothing of a match is left to be copied. -/
theorem copyLoop_idle (limit di : Nat) (h : sd.bytesRemain = 2 ^ 16 - 1) :
    copyLoop limit copyTurns sd di = ({ sd with bytesRemain := 2 ^ 16 - 2 }, di, false) := by
  have hturns : copyTurns = copyTurns - 1 + 1 := by
    unfold copyTurns
    rfl
  rw [hturns, copyLoop]
  simp [h]

/-- The first block lasts for the whole window. -/
theorem decompressLoop_drained (horig : sd.origSize = 1) (hremain : sd.bytesRemain = 2 ^ 16 - 1)
    (hblock : sd.blockSize = 0)
    (hstart : ∃ sd', startBlock src { sd with bytesRemain := 2 ^ 16 - 2 } = .ok sd' ∧
      Drained tables sd' ∧ Lasts (wndSiz + 1) sd') :
    ∃ output, decompressLoop src 1 2 sd [] = .ok ⟨.success, output, tables⟩ := by
  have hwnd : 1 < wndSiz := by
    unfold wndSiz
    decide
  have hcopy := copyLoop_idle 1 0 hremain
  generalize 2 ^ 16 - 2 = bytesRemain at hcopy hstart
  obtain ⟨sd₁, hfresh, hdrained, hlast⟩ := hstart
  have hflag := hdrained.flag
  obtain ⟨sd₂, hsymbol, hdrained, hlast⟩ := decodeSymbol_drained src hdrained hlast
  have hc : decodeC src { sd with bytesRemain } = .ok (sd₂, 0) := by
    rw [decodeC, if_pos hblock, hfresh]
    show (if sd₁.badTableFlag = true then _ else _) = _
    rw [if_neg (by rw [hflag]; exact Bool.false_ne_true), hsymbol]
  obtain ⟨sd₃, hturn, hdrained, hlast⟩ := decodeTurn_drained hc hdrained hlast 0
  rw [Nat.zero_add, if_neg (Nat.not_le.mpr hwnd)] at hturn
  obtain ⟨sd₄, hloop, hdrained⟩ : ∃ sd₄, decodeLoop src wndSiz { sd with bytesRemain } 0 = .ok sd₄ ∧
      Drained tables sd₄ := by
    obtain ⟨turns, hturns⟩ : ∃ turns, wndSiz = turns + 1 := ⟨wndSiz - 1, by omega⟩
    obtain ⟨sd₄, hloop, hdrained⟩ := decodeLoop_drained turns hdrained
      ⟨by have := hlast.1; omega, hlast.2⟩ (by omega : wndSiz ≤ 1 + turns) hwnd
    refine ⟨sd₄, ?_, hdrained⟩
    rw [hturns, decodeLoop, hturn]
    exact hloop
  have hdecode : decode src sd 1 = .ok sd₄ := by
    rw [decode, hcopy]
    exact hloop
  refine ⟨[sd₄.buffer 0], ?_⟩
  rw [decompressLoop, if_neg (by omega)]
  dsimp only
  rw [horig, Nat.min_eq_right hwnd.le, hdecode]
  show (if sd₄.badTableFlag = true then _ else _) = _
  rw [if_neg (by rw [hdrained.flag]; exact Bool.false_ne_true), if_neg (by decide), decompressLoop,
    if_pos (by dsimp only; rw [hdrained.origSize])]
  dsimp only
  rw [hdrained.flag, hdrained.tables]
  rfl

end Drained

/-- A block whose char&len set has a single length, which is 1. -/
def oneShortCode (i : Nat) : Byte :=
  [5, 0, 0, 0, 1, 0, 0, 0, 0xff, 0xff, 0x00, 0xc0, 0x20].getD i 0

def oneShortTable : CodeTable := ⟨.charLen, 1 :: List.replicate 509 0⟩

theorem not_complete_oneShortTable : ¬ oneShortTable.Complete := by
  rintro ⟨-, h⟩
  have hsum : kraftSum 16 oneShortTable.lens = 2 ^ 15 := by decide +kernel
  rw [h.kraft] at hsum
  cases hsum

theorem startBlock_oneShortCode :
    ∃ sd, startBlock (fun i => oneShortCode (8 + i))
        { fillBuf (fun i => oneShortCode (8 + i)) (clearScratch 5 1) 16 with
          bytesRemain := 2 ^ 16 - 2 } = .ok sd ∧
      Drained [oneShortTable] sd ∧ Lasts (wndSiz + 1) sd := by
  have hread : ((startBlock (fun i => oneShortCode (8 + i))
      { fillBuf (fun i => oneShortCode (8 + i)) (clearScratch 5 1) 16 with
          bytesRemain := 2 ^ 16 - 2 }).toOption.map
        fun sd => ([sd.bitBuf, sd.subBitBuf, sd.compSize, sd.cTable 0, sd.origSize, sd.blockSize],
          sd.badTableFlag, sd.tables)) =
      some ([0, 0, 0, 0, 1, 0xffff], false, [oneShortTable]) := by decide +kernel
  cases hstart : startBlock (fun i => oneShortCode (8 + i))
      { fillBuf (fun i => oneShortCode (8 + i)) (clearScratch 5 1) 16 with
          bytesRemain := 2 ^ 16 - 2 } with
  | error e =>
    rw [hstart] at hread
    cases hread
  | ok sd =>
    rw [hstart] at hread
    simp only [Except.toOption, Option.map_some, Option.some.injEq, Prod.mk.injEq,
      List.cons.injEq, and_true] at hread
    obtain ⟨⟨hbit, hsub, hcomp, hsymbol, horig, hblock⟩, hflag, htables⟩ := hread
    refine ⟨sd, rfl, ⟨hbit, hsub, hcomp, hflag, hsymbol, horig, htables⟩, ?_⟩
    unfold Lasts wndSiz
    rw [hblock]
    decide

/-- The set is not that of a code, and the byte is written. -/
theorem not_decompress_rejectsMalformed_oneShortCode :
    ¬ RejectsMalformed (decompress oneShortCode .efi32 13 1 21552) := by
  obtain ⟨output, hloop⟩ := decompressLoop_drained rfl rfl rfl startBlock_oneShortCode
  have hrun : decompress oneShortCode .efi32 13 1 21552 = .ok ⟨.success, output, [oneShortTable]⟩ :=
    hloop
  rw [hrun]
  intro h
  obtain ⟨r, hr, hstatus⟩ := h ⟨oneShortTable, List.mem_singleton.mpr rfl, not_complete_oneShortTable⟩
  cases hr
  cases hstatus

end EfiCore.Dec
