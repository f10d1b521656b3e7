import EfiCore.Var.Chain
import Mathlib.Algebra.Order.BigOperators.Group.List
import Mathlib.Algebra.Order.Ring.Nat

/-! # What is kept of a bank

Everything the services do to a bank in use is one of a few edits of its copy, each perhaps with
an update of the device.  `Bank.Kept g k f` is what all of them keep between the copy `k` and
the content `f` of the device; how much of it is asked is said by the regime `g`.
-/

namespace EfiCore.Var

open EfiCore.Lib

/-! ## Turning bits off -/

/-- `new` has no bit on that `old` has not. -/
def BitsOff (new old : Byte) : Prop := new &&& old = new

namespace BitsOff

variable {a b c : Byte}

theorem refl (a : Byte) : BitsOff a a := BitVec.and_self

theorem trans (h : BitsOff a b) (h' : BitsOff b c) : BitsOff a c := by
  rw [BitsOff] at *
  rw [← h, BitVec.and_assoc, h']

theorem erased (a : Byte) : BitsOff a 0xFF := BitVec.and_allOnes

theorem zero (a : Byte) : BitsOff 0 a := BitVec.zero_and

/-- A state byte with one more bit set, both inverted. -/
theorem inverted (state bits : Byte) : BitsOff ((state ||| bits) ^^^ 0xFF) (state ^^^ 0xFF) := by
  rw [BitsOff]
  ext i hi
  have hones : (0xFF : Byte)[i] = true := BitVec.getElem_allOnes i hi
  simp only [BitVec.getElem_and, BitVec.getElem_xor, BitVec.getElem_or, hones]
  cases state[i] <;> simp

end BitsOff

/-! ## Regimes -/

/-- Which properties of the banks a run maintains. -/
structure Regime where
  /-- The names of stored records end before their state bytes. -/
  named : Prop
  /-- `InUse` is the space the valid records take. -/
  counted : Prop
  /-- A device has no bit off where the next update needs it on. -/
  erased : Prop
  named_of_counted : counted → named

/-- `FIRST_VARIABLE_OFFSET` and the valid records. -/
def inUseOf (cs : List Record) : Nat :=
  firstVariableOffset + ((cs.filter Record.valid).map List.length).sum

/-- Where the state bytes of the records are that start at `off`. -/
def stateOffsets : Nat → List Record → List Nat
  | _, [] => []
  | off, c :: cs => (off + (c.varSize - 1)) :: stateOffsets (off + c.length) cs

/-- The bytes of a bank that are rewritten in place: its header and the states of its records. -/
def Rewritten (cs : List Record) (i : Nat) : Prop :=
  i < firstVariableOffset ∨ i ∈ stateOffsets firstVariableOffset cs

/-- The content `f` of the device has all the bits on that updates of `k` may still need. -/
structure Bank.Synced (k : Bank) (cs : List Record) (f : List Byte) : Prop where
  below : ∀ i, Rewritten cs i → BitsOff (k.data.getD i 0) (f.getD i 0)
  erased : k.tail = recordsEnd cs → ∀ i, k.tail ≤ i → i < f.length → f.getD i 0 = 0xFF
  state : k.data.getD 7 0 = k.state ^^^ 0xFF

structure Bank.Kept (g : Regime) (k : Bank) (f : List Byte) : Prop where
  chain : ∃ hdr rest, k.Chain hdr k.records rest
  length : f.length = k.data.length
  named : g.named → ∀ c ∈ k.records, c.Named
  counted : g.counted → k.inUse = inUseOf k.records
  synced : g.erased → k.deviceError = false → k.Synced k.records f

theorem Bank.Kept.intro {g : Regime} {k : Bank} {f hdr rest : List Byte} {cs : List Record}
    (chain : k.Chain hdr cs rest) (length : f.length = k.data.length)
    (named : g.named → ∀ c ∈ cs, c.Named) (counted : g.counted → k.inUse = inUseOf cs)
    (synced : g.erased → k.deviceError = false → k.Synced cs f) : k.Kept g f := by
  have hrecords := chain.records_eq
  subst hrecords
  exact ⟨⟨hdr, rest, chain⟩, length, named, counted, synced⟩

/-! ## Places -/

theorem stateOffsets_append (off : Nat) (cs cs' : List Record) :
    stateOffsets off (cs ++ cs') =
      stateOffsets off cs ++ stateOffsets (off + cs.flatten.length) cs' := by
  induction cs generalizing off with
  | nil => rfl
  | cons c cs ih =>
    rw [List.cons_append, stateOffsets, stateOffsets, ih, List.flatten_cons, List.length_append,
      Nat.add_assoc, List.cons_append]

theorem stateOffsets_withState (off : Nat) (pre post : List Record) {c : Record} (hc : c.Sized)
    (b : Byte) :
    stateOffsets off (pre ++ c.withState b :: post) = stateOffsets off (pre ++ c :: post) := by
  rw [stateOffsets_append, stateOffsets_append, stateOffsets, stateOffsets,
    Record.varSize_withState hc, Record.length_withState]

theorem mem_stateOffsets (pre post : List Record) (c : Record) :
    Rewritten (pre ++ c :: post) (recordsEnd pre + (c.varSize - 1)) := by
  apply Or.inr
  rw [stateOffsets_append, stateOffsets]
  exact List.mem_append_right _ List.mem_cons_self

/-- The bytes that are rewritten lie before the end of the records. -/
theorem Rewritten.lt {cs : List Record} (hsized : ∀ c ∈ cs, c.Sized) {i : Nat}
    (h : Rewritten cs i) : i < recordsEnd cs := by
  cases h with
  | inl h => exact Nat.lt_of_lt_of_le h (Nat.le_add_right _ _)
  | inr h =>
    rw [recordsEnd]
    generalize firstVariableOffset = off at h
    induction cs generalizing off with
    | nil => cases h
    | cons c cs ih =>
      have hc := hsized c List.mem_cons_self
      have hle := hc.varSize_le
      have hlarge := hc.large'
      rw [List.flatten_cons, List.length_append]
      cases h with
      | head => omega
      | tail _ h =>
        have := ih (fun c' hc' => hsized c' (List.mem_cons_of_mem _ hc')) (off + c.length) h
        omega

/-! ## Edits of the chain -/

/-- Records of the same sizes end in the same places. -/
theorem recordsEnd_congr {cs cs' : List Record}
    (h : cs.map List.length = cs'.map List.length) : recordsEnd cs = recordsEnd cs' := by
  rw [recordsEnd, recordsEnd, List.length_flatten, List.length_flatten, h]

theorem recordsEnd_set (pre post : List Record) {c c' : Record} (h : c'.length = c.length) :
    recordsEnd (pre ++ c' :: post) = recordsEnd (pre ++ c :: post) := by
  apply recordsEnd_congr
  simp only [List.map_append, List.map_cons, h]

namespace Bank.Chain

variable {k : Bank} {hdr rest : List Byte} {cs pre post : List Record} {c : Record}

/-- Only the copy and the tail matter. -/
theorem congr (h : k.Chain hdr cs rest) {k' : Bank} (hdata : k'.data = k.data)
    (htail : k'.tail = k.tail) : k'.Chain hdr cs rest where
  data := hdata ▸ h.data
  header := h.header
  sized := h.sized
  tail := by
    rw [htail, Bank.bankSize, hdata]
    exact h.tail
  small := hdata ▸ h.small

theorem writeHeader (h : k.Chain hdr cs rest) {i : Nat} {bs : List Byte}
    (hin : i + bs.length ≤ firstVariableOffset) :
    ({ k with data := splice k.data i bs } : Bank).Chain (splice hdr i bs) cs rest := by
  have hlen : (splice hdr i bs).length = hdr.length := length_splice (by rw [h.header]; exact hin)
  have hdata : splice k.data i bs = splice hdr i bs ++ cs.flatten ++ rest := by
    rw [h.data, List.append_assoc, splice_append_left (by rw [h.header]; exact hin),
      ← List.append_assoc]
  have hsame : (splice k.data i bs).length = k.data.length := by
    rw [hdata, h.data]
    simp only [List.length_append, hlen]
  exact
    { data := hdata
      header := hlen.trans h.header
      sized := h.sized
      tail := by
        rw [Bank.bankSize]
        dsimp only
        rw [hsame]
        exact h.tail
      small := by
        dsimp only
        rw [hsame]
        exact h.small }

theorem writeState (h : k.Chain hdr (pre ++ c :: post) rest) (b : Byte) :
    ({ k with data := splice k.data (recordsEnd pre + (c.varSize - 1)) [b] } : Bank).Chain hdr
      (pre ++ c.withState b :: post) rest := by
  have hsized := h.sized_at
  have hlarge := hsized.large'
  have hle := hsized.varSize_le
  obtain ⟨hdata, hlen⟩ := h.split
  have hwrite : splice c (c.varSize - 1) [b] = c.withState b := by
    rw [splice, Record.withState, List.set_eq_take_append_cons_drop, if_pos (by omega)]
    simp
  have hnew : splice k.data (recordsEnd pre + (c.varSize - 1)) [b] =
      (hdr ++ pre.flatten) ++ c.withState b ++ (post.flatten ++ rest) := by
    rw [hdata, List.append_assoc, ← hlen, splice_append_right, splice_append_left, hwrite,
      ← List.append_assoc]
    rw [List.length_singleton]
    omega
  have hsame : (splice k.data (recordsEnd pre + (c.varSize - 1)) [b]).length = k.data.length := by
    rw [hnew, hdata]
    simp only [List.length_append, Record.length_withState]
  have hend := recordsEnd_set pre post (c := c) (Record.length_withState c b)
  exact
    { data := by
        dsimp only
        rw [hnew, List.flatten_append, List.flatten_cons]
        simp only [List.append_assoc]
      header := h.header
      sized := by
        intro c' hc'
        rcases List.mem_append.mp hc' with hpre | hpost
        · exact h.sized c' (List.mem_append_left _ hpre)
        · rcases List.mem_cons.mp hpost with rfl | hpost
          · exact hsized.withState b
          · exact h.sized c' (List.mem_append_right _ (List.mem_cons_of_mem _ hpost))
      tail := by
        rw [hend, Bank.bankSize]
        dsimp only
        rw [hsame]
        exact h.tail
      small := by
        dsimp only
        rw [hsame]
        exact h.small }

/-- A record written at the tail. -/
theorem append (h : k.Chain hdr cs rest) (hc : c.Sized)
    (hroom : k.tail + c.length ≤ k.bankSize) :
    ({ k with data := splice k.data k.tail c, tail := k.tail + c.length } : Bank).Chain hdr
      (cs ++ [c]) (rest.drop c.length) ∧ k.tail = recordsEnd cs := by
  have hbank := h.bankSize_eq
  have hlarge := hc.large'
  have hle := hc.varSize_le
  have htail : k.tail = recordsEnd cs := by
    rcases h.tail with htail | ⟨htail, -⟩
    · exact htail
    · omega
  have hoff : k.tail = (hdr ++ cs.flatten).length := by
    rw [htail, List.length_append, h.header, recordsEnd]
  have hnew : splice k.data k.tail c = hdr ++ cs.flatten ++ (c ++ rest.drop c.length) := by
    have hsplice := splice_append_right (hdr ++ cs.flatten) rest c 0
    rw [Nat.add_zero, ← hoff, ← h.data] at hsplice
    rw [hsplice, splice, List.take_zero, List.nil_append, Nat.zero_add]
  have hsame : (splice k.data k.tail c).length = k.data.length := length_splice hroom
  refine ⟨?_, htail⟩
  exact
    { data := by
        dsimp only
        rw [hnew, List.flatten_append, List.flatten_singleton]
        simp only [List.append_assoc]
      header := h.header
      sized := by
        intro c' hc'
        rcases List.mem_append.mp hc' with hold | hnew
        · exact h.sized c' hold
        · rw [List.mem_singleton.mp hnew]
          exact hc
      tail := .inl (by rw [recordsEnd_concat, htail])
      small := by
        dsimp only
        rw [hsame]
        exact h.small }

end Bank.Chain

/-! ## Space in use -/

theorem inUseOf_append (cs cs' : List Record) :
    inUseOf (cs ++ cs') = inUseOf cs + ((cs'.filter Record.valid).map List.length).sum := by
  rw [inUseOf, inUseOf, List.filter_append, List.map_append, List.sum_append, Nat.add_assoc]

theorem inUseOf_concat (cs : List Record) (c : Record) :
    inUseOf (cs ++ [c]) = inUseOf cs + if c.valid then c.length else 0 := by
  rw [inUseOf_append]
  cases hvalid : c.valid with
  | true => simp [hvalid]
  | false => simp [hvalid]

theorem inUseOf_set (pre post : List Record) {c c' : Record} (h : c'.length = c.length) :
    inUseOf (pre ++ c' :: post) + (if c.valid then c.length else 0) =
      inUseOf (pre ++ c :: post) + if c'.valid then c.length else 0 := by
  rw [inUseOf_append, inUseOf_append]
  cases hvalid : c.valid <;> cases hvalid' : c'.valid <;>
    simp [hvalid, hvalid', h] <;> omega

theorem inUseOf_le (cs : List Record) : inUseOf cs ≤ recordsEnd cs := by
  have hsub : ((cs.filter Record.valid).map List.length).Sublist (cs.map List.length) :=
    List.filter_sublist.map _
  rw [inUseOf, recordsEnd, List.length_flatten]
  exact Nat.add_le_add_left (hsub.sum_le_sum fun _ _ => Nat.zero_le _) _

theorem length_le_inUseOf {cs : List Record} {c : Record} (hc : c ∈ cs) (hvalid : c.valid = true) :
    firstVariableOffset + c.length ≤ inUseOf cs := by
  have hmem : c.length ∈ (cs.filter Record.valid).map List.length :=
    List.mem_map_of_mem (List.mem_filter.mpr ⟨hc, hvalid⟩)
  rw [inUseOf]
  exact Nat.add_le_add_left (List.le_sum_of_mem hmem) _

/-! ## Edits of a bank -/

namespace Bank.Kept

variable {g : Regime} {k : Bank} {f : List Byte} {pre post : List Record} {c : Record}

theorem tail_le (h : k.Kept g f) : k.tail ≤ k.data.length := by
  obtain ⟨hdr, rest, hchain⟩ := h.chain
  exact hchain.tail_le

theorem header_le (h : k.Kept g f) : firstVariableOffset ≤ k.tail := by
  obtain ⟨hdr, rest, hchain⟩ := h.chain
  exact Nat.le_trans (Nat.le_add_right _ _) hchain.recordsEnd_le

/-- A bank whose tail is behind its header has no records. -/
theorem records_eq_nil (h : k.Kept g f) (htail : k.tail = firstVariableOffset) :
    k.records = [] := by
  obtain ⟨hdr, rest, hchain⟩ := h.chain
  have hend := hchain.recordsEnd_le
  rw [htail, recordsEnd] at hend
  have hlength := length_le_flatten hchain.sized
  exact List.eq_nil_of_length_eq_zero (by omega)

theorem failed (h : k.Kept g f) : ({ k with deviceError := true } : Bank).Kept g f where
  chain := by
    obtain ⟨hdr, rest, hchain⟩ := h.chain
    exact ⟨hdr, rest, hchain.congr rfl rfl⟩
  length := h.length
  named := h.named
  counted := h.counted
  synced _ hok := by cases hok

theorem withTSize (h : k.Kept g f) (tSize : TSize) : ({ k with tSize } : Bank).Kept g f where
  chain := by
    obtain ⟨hdr, rest, hchain⟩ := h.chain
    exact ⟨hdr, rest, hchain.congr rfl rfl⟩
  length := h.length
  named := h.named
  counted := h.counted
  synced hg hok :=
    { below := (h.synced hg hok).below
      erased := (h.synced hg hok).erased
      state := (h.synced hg hok).state }

/-- The device gets a part of the copy. -/
theorem flashed (h : k.Kept g f) {off n : Nat} (hin : off + n ≤ k.tail) :
    k.Kept g (splice f off (slice k.data off n)) := by
  have htail := h.tail_le
  have hn : (slice k.data off n).length = n := length_slice (by omega)
  have hfits : off + (slice k.data off n).length ≤ f.length := by
    rw [hn, h.length]
    omega
  have hlen := length_splice hfits
  exact
    { chain := h.chain
      length := hlen.trans h.length
      named := h.named
      counted := h.counted
      synced := by
        intro hg hok
        have hs := h.synced hg hok
        exact
          { below := by
              intro i hi
              rw [getD_splice hfits, hn]
              split
              · rename_i hwithin
                rw [getD_slice (by omega), show off + (i - off) = i by omega]
                exact BitsOff.refl _
              · exact hs.below i hi
            erased := by
              intro heq i hle hlt
              rw [hlen] at hlt
              rw [getD_splice hfits, hn, if_neg (by omega)]
              exact hs.erased heq i hle hlt
            state := hs.state } }

theorem writeHeader (h : k.Kept g f) {i : Nat} {bs : List Byte} {state : Byte}
    (hin : i + bs.length ≤ firstVariableOffset)
    (hoff : k.data.getD 7 0 = k.state ^^^ 0xFF →
      ∀ j, j < bs.length → BitsOff (bs.getD j 0) (k.data.getD (i + j) 0))
    (hstate : k.data.getD 7 0 = k.state ^^^ 0xFF →
      (splice k.data i bs).getD 7 0 = state ^^^ 0xFF) :
    ({ k with data := splice k.data i bs, state } : Bank).Kept g f := by
  obtain ⟨hdr, rest, hchain⟩ := h.chain
  have htail := h.tail_le
  have hheader := h.header_le
  have hfits : i + bs.length ≤ k.data.length := by omega
  have hnew : ({ k with data := splice k.data i bs, state } : Bank).Chain (splice hdr i bs)
      k.records rest := (hchain.writeHeader hin).congr rfl rfl
  refine .intro hnew ?_ h.named h.counted ?_
  · dsimp only
    rw [length_splice hfits]
    exact h.length
  · intro hg hok
    have hs := h.synced hg hok
    refine ⟨?_, hs.erased, hstate hs.state⟩
    intro n hn
    rw [getD_splice hfits]
    split
    · rename_i hwithin
      have hbelow := hoff hs.state (n - i) (by omega)
      rw [show i + (n - i) = n by omega] at hbelow
      exact hbelow.trans (hs.below n hn)
    · exact hs.below n hn

/-- A record gets another state; when it is not valid any more, its space is given back. -/
theorem writeState (h : k.Kept g f) (hrecords : k.records = pre ++ c :: post) {b : Byte}
    (inUse : Nat) (hoff : BitsOff b c.stateByte) (hvalid : g.named → c.valid = true)
    (hinUse : g.counted →
      inUse = if (c.withState b).stored then k.inUse else k.inUse - c.length) :
    ({ k with data := splice k.data (recordsEnd pre + (c.varSize - 1)) [b], inUse } : Bank).Kept g
      f ∧
    ({ k with data := splice k.data (recordsEnd pre + (c.varSize - 1)) [b], inUse } : Bank).records
      = pre ++ c.withState b :: post := by
  obtain ⟨hdr, rest, hchain⟩ := h.chain
  rw [hrecords] at hchain
  have hsized := hchain.sized_at
  have hlarge := hsized.large'
  have hle := hsized.varSize_le
  have hend := Bank.Chain.within c pre post
  have hlimit := hchain.recordsEnd_le
  have htail := h.tail_le
  have hfits : recordsEnd pre + (c.varSize - 1) + [b].length ≤ k.data.length := by
    rw [List.length_singleton]
    omega
  have hnew : ({ k with data := splice k.data (recordsEnd pre + (c.varSize - 1)) [b], inUse } :
      Bank).Chain hdr (pre ++ c.withState b :: post) rest :=
    (hchain.writeState b).congr rfl rfl
  refine ⟨.intro hnew ?_ ?_ ?_ ?_, hnew.records_eq⟩
  · dsimp only
    rw [length_splice hfits]
    exact h.length
  · intro hg c' hc'
    have hnamed := h.named hg
    rw [hrecords] at hnamed
    rcases List.mem_append.mp hc' with hpre | hpost
    · exact hnamed c' (List.mem_append_left _ hpre)
    · rcases List.mem_cons.mp hpost with rfl | hpost
      · have hc := hnamed c (List.mem_append_right _ List.mem_cons_self)
        exact hc.withState hsized (hvalid hg) b
      · exact hnamed c' (List.mem_append_right _ (List.mem_cons_of_mem _ hpost))
  · intro hg
    have hg' := g.named_of_counted hg
    have hnamed := h.named hg' c (by rw [hrecords]; simp)
    have hset := inUseOf_set pre post (Record.length_withState c b)
    have hmem : c ∈ pre ++ c :: post := List.mem_append_right pre List.mem_cons_self
    have hspace := length_le_inUseOf hmem (hvalid hg')
    have hcount := h.counted hg
    rw [hvalid hg', if_pos rfl, Record.valid_withState hsized hnamed (hvalid hg')] at hset
    rw [hrecords] at hcount
    dsimp only
    rw [hinUse hg, hcount]
    split at hset <;> rename_i hstored
    · rw [if_pos hstored]
      omega
    · rw [if_neg hstored]
      omega
  · intro hg hok
    have hs := h.synced hg hok
    rw [hrecords] at hs
    have hsame : ∀ i, Rewritten (pre ++ c.withState b :: post) i ↔ Rewritten (pre ++ c :: post) i := by
      intro i
      rw [Rewritten, Rewritten, stateOffsets_withState _ pre post hsized]
    refine ⟨?_, ?_, ?_⟩
    · intro i hi
      rw [getD_splice hfits]
      split
      · rename_i hwithin
        rw [List.length_singleton] at hwithin
        obtain rfl : i = recordsEnd pre + (c.varSize - 1) := by omega
        have hold : k.data.getD (recordsEnd pre + (c.varSize - 1)) 0 = c.stateByte := by
          obtain ⟨hdata, hlen⟩ := hchain.split
          rw [hdata, List.append_assoc, ← hlen, List.getD_eq_getElem?_getD,
            List.getElem?_append_right (by omega), Nat.add_sub_cancel_left,
            List.getElem?_append_left (by omega), Record.stateByte, List.getD_eq_getElem?_getD]
        rw [Nat.sub_self]
        have hbelow := hs.below _ (mem_stateOffsets pre post c)
        rw [hold] at hbelow
        exact hoff.trans hbelow
      · exact hs.below i ((hsame i).mp hi)
    · rw [recordsEnd_set pre post (Record.length_withState c b)]
      exact hs.erased
    · rw [getD_splice hfits, if_neg]
      · exact hs.state
      · rw [List.length_singleton]
        have : firstVariableOffset = 8 := rfl
        have : firstVariableOffset ≤ recordsEnd pre := Nat.le_add_right _ _
        omega

/-- A record is written at the tail of the copy. -/
theorem append (h : k.Kept g f) (A : Arch) (hc : c.Sized)
    (hroom : k.tail + c.length ≤ k.bankSize) (hvalid : g.named → c.Named ∧ c.valid = true) :
    ({ k with
        data := splice k.data k.tail c, tail := k.tail + c.length,
        inUse := A.add k.inUse c.length } : Bank).Kept g f ∧
    ({ k with
        data := splice k.data k.tail c, tail := k.tail + c.length,
        inUse := A.add k.inUse c.length } : Bank).records = k.records ++ [c] := by
  obtain ⟨hdr, rest, hchain⟩ := h.chain
  obtain ⟨happend, htail⟩ := hchain.append hc hroom
  have hnew : ({ k with
      data := splice k.data k.tail c, tail := k.tail + c.length,
      inUse := A.add k.inUse c.length } : Bank).Chain hdr (k.records ++ [c])
      (rest.drop c.length) := happend.congr rfl rfl
  have hfits : k.tail + c.length ≤ k.data.length := hroom
  refine ⟨.intro hnew ?_ ?_ ?_ ?_, hnew.records_eq⟩
  · dsimp only
    rw [length_splice hfits]
    exact h.length
  · intro hg c' hc'
    rcases List.mem_append.mp hc' with hold | hnew
    · exact h.named hg c' hold
    · rw [List.mem_singleton.mp hnew]
      exact (hvalid hg).1
  · intro hg
    have hle := inUseOf_le k.records
    have hsmall := hchain.small
    rw [inUseOf_concat, (hvalid (g.named_of_counted hg)).2, if_pos rfl]
    dsimp only
    rw [h.counted hg, Arch.add_of_lt (by omega)]
  · intro hg hok
    have hs := h.synced hg hok
    have hlen := h.length
    refine ⟨?_, ?_, ?_⟩
    · intro i hi
      rw [getD_splice hfits]
      split
      · -- a byte of the new record, where the device is erased
        rename_i hwithin
        rw [hs.erased htail i hwithin.1 (by omega)]
        exact BitsOff.erased _
      · rename_i hwithin
        refine hs.below i ?_
        cases hi with
        | inl hi => exact .inl hi
        | inr hi =>
          rw [stateOffsets_append] at hi
          rcases List.mem_append.mp hi with hi | hi
          · exact .inr hi
          · have hlarge := hc.large'
            have hle := hc.varSize_le
            rw [← recordsEnd, ← htail] at hi
            cases hi with
            | head => omega
            | tail _ hi => cases hi
    · intro _ i hge hlt
      dsimp only at hge
      exact hs.erased htail i (by omega) hlt
    · have hheader := h.header_le
      rw [firstVariableOffset, sizeofBankHeader] at hheader
      rw [getD_splice hfits, if_neg (by omega)]
      exact hs.state

/-- A device that updates a bank as a whole has the copy. -/
theorem transacted (h : k.Kept g f) (hg : ¬ g.erased) : k.Kept g k.data where
  chain := h.chain
  length := rfl
  named := h.named
  counted := h.counted
  synced hg' := absurd hg' hg

/-- A bank that was cleared. -/
theorem cleared (hsmall : k.data.length < 2 ^ 32) (hsize : firstVariableOffset ≤ k.data.length)
    (htail : k.tail = firstVariableOffset) (hinUse : k.inUse = firstVariableOffset)
    (hstate : k.data.getD 7 0 = k.state ^^^ 0xFF) (hlen : f.length = k.data.length)
    (hones : ∀ i, i < f.length → f.getD i 0 = 0xFF) : k.Kept g f ∧ k.records = [] := by
  have hchain : k.Chain (k.data.take firstVariableOffset) [] (k.data.drop firstVariableOffset) :=
    { data := by rw [List.flatten_nil, List.append_nil, List.take_append_drop]
      header := by
        rw [List.length_take]
        omega
      sized := fun c hc => by cases hc
      tail := .inl htail
      small := hsmall }
  refine ⟨.intro hchain hlen (fun _ c hc => by cases hc) (fun _ => hinUse) ?_, hchain.records_eq⟩
  intro hg hok
  refine ⟨?_, fun _ i _ hlt => hones i hlt, hstate⟩
  intro i hi
  have hlt : i < firstVariableOffset := hi.lt fun c hc => by cases hc
  rw [hones i (by omega)]
  exact BitsOff.erased _

end Bank.Kept

end EfiCore.Var
