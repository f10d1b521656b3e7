import EfiCore.Var.Join

/-! # Looking at the records of a bank

Every loop over a bank parses its records one after the other.  `Bank.walk` is what such a loop
meets, and `Bank.infos` what it should meet.
-/

namespace EfiCore.Var

open EfiCore.Lib

/-- The records of a bank, from `offset` on, as the parser reports them. -/
def Bank.walk (A : Arch) (bank : Bank) : Nat → Nat → Except Fault (List VarInfo)
  | 0, _ => .error .hang
  | fuel + 1, offset => do
    match ← rtVarParseStore A bank offset with
    | none => return []
    | some info =>
      let infos ← walk A bank fuel info.nextVarOffset
      return info :: infos

/-- What there is to find out about records, the first of which is at `off`. -/
def infosFrom : Nat → List Record → List VarInfo
  | _, [] => []
  | off, c :: cs => c.info off :: infosFrom (off + c.length) cs

def Bank.infos (k : Bank) : List VarInfo := infosFrom firstVariableOffset k.records

theorem mem_infosFrom {off : Nat} {cs : List Record} {info : VarInfo} :
    info ∈ infosFrom off cs ↔
      ∃ pre c post, cs = pre ++ c :: post ∧ info = c.info (off + pre.flatten.length) := by
  induction cs generalizing off with
  | nil =>
    constructor
    · intro h
      cases h
    · rintro ⟨pre, c, post, hnil, -⟩
      cases pre <;> cases hnil
  | cons x cs ih =>
    rw [infosFrom, List.mem_cons, ih]
    constructor
    · rintro (rfl | ⟨pre, c, post, rfl, rfl⟩)
      · exact ⟨[], x, cs, rfl, rfl⟩
      · exact ⟨x :: pre, c, post, rfl, by rw [List.flatten_cons, List.length_append, Nat.add_assoc]⟩
    · rintro ⟨pre, c, post, hsplit, rfl⟩
      cases pre with
      | nil =>
        cases hsplit
        exact .inl rfl
      | cons y pre =>
        cases hsplit
        exact .inr ⟨pre, c, post, rfl, by rw [List.flatten_cons, List.length_append, Nat.add_assoc]⟩

theorem Bank.mem_infos {k : Bank} {info : VarInfo} :
    info ∈ k.infos ↔
      ∃ pre c post, k.records = pre ++ c :: post ∧ info = c.info (recordsEnd pre) := mem_infosFrom

namespace Bank.Chain

variable {k : Bank} {hdr rest : List Byte} {pre post : List Record} {A : Arch}

/-- A search through the rest of a bank. -/
theorem findRecord_eq (h : k.Chain hdr (pre ++ post) rest) (hnamed : ∀ c ∈ post, c.Named)
    (p : VarInfo → Bool) {fuel : Nat} (hfuel : post.length < fuel) :
    k.findRecord A p fuel (recordsEnd pre) =
      .ok ((infosFrom (recordsEnd pre) post).find? p) := by
  induction post generalizing pre fuel with
  | nil =>
    obtain ⟨fuel, rfl⟩ := Nat.exists_eq_succ_of_ne_zero (Nat.ne_zero_of_lt hfuel)
    rw [List.append_nil] at h
    rw [Bank.findRecord, h.parse_end]
    rfl
  | cons c post ih =>
    obtain ⟨fuel, rfl⟩ := Nat.exists_eq_succ_of_ne_zero (Nat.ne_zero_of_lt hfuel)
    have hoffset : (c.info (recordsEnd pre)).nextVarOffset = recordsEnd (pre ++ [c]) :=
      (recordsEnd_concat c pre).symm
    have hnext : pre ++ c :: post = (pre ++ [c]) ++ post := by simp
    rw [List.length_cons] at hfuel
    have hrest := ih (hnext ▸ h) (fun c' hc' => hnamed c' (List.mem_cons_of_mem c hc'))
      (Nat.lt_of_succ_lt_succ hfuel)
    rw [Bank.findRecord, h.parse_named (hnamed c List.mem_cons_self), infosFrom, List.find?_cons]
    simp only [bind, Except.bind, hoffset]
    cases hp : p (c.info (recordsEnd pre)) with
    | true => rfl
    | false =>
      rw [if_neg Bool.false_ne_true, hrest, recordsEnd_concat]

theorem walk_eq (h : k.Chain hdr (pre ++ post) rest) (hnamed : ∀ c ∈ post, c.Named) {fuel : Nat}
    (hfuel : post.length < fuel) :
    k.walk A fuel (recordsEnd pre) = .ok (infosFrom (recordsEnd pre) post) := by
  induction post generalizing pre fuel with
  | nil =>
    obtain ⟨fuel, rfl⟩ := Nat.exists_eq_succ_of_ne_zero (Nat.ne_zero_of_lt hfuel)
    rw [List.append_nil] at h
    rw [Bank.walk, h.parse_end]
    rfl
  | cons c post ih =>
    obtain ⟨fuel, rfl⟩ := Nat.exists_eq_succ_of_ne_zero (Nat.ne_zero_of_lt hfuel)
    have hoffset : (c.info (recordsEnd pre)).nextVarOffset = recordsEnd (pre ++ [c]) :=
      (recordsEnd_concat c pre).symm
    have hnext : pre ++ c :: post = (pre ++ [c]) ++ post := by simp
    rw [List.length_cons] at hfuel
    have hrest := ih (hnext ▸ h) (fun c' hc' => hnamed c' (List.mem_cons_of_mem c hc'))
      (Nat.lt_of_succ_lt_succ hfuel)
    rw [Bank.walk, h.parse_named (hnamed c List.mem_cons_self), infosFrom]
    rw [recordsEnd_concat] at hrest hoffset
    simp only [bind, Except.bind, hoffset, hrest]
    rfl

end Bank.Chain

namespace Bank.Kept

variable {g : Regime} {k : Bank} {f : List Byte} {A : Arch}

/-- The loops over a bank have enough fuel. -/
theorem length_records_lt (h : k.Kept g f) : k.records.length < k.bankSize + 1 := by
  obtain ⟨hdr, rest, hchain⟩ := h.chain
  have hlength := length_le_flatten hchain.sized
  have hend := hchain.recordsEnd_le.trans hchain.tail_le
  rw [recordsEnd] at hend
  omega

theorem findRecord_eq (h : k.Kept g f) (hg : g.named) (p : VarInfo → Bool) :
    k.findRecord A p (k.bankSize + 1) firstVariableOffset = .ok (k.infos.find? p) := by
  obtain ⟨hdr, rest, hchain⟩ := h.chain
  have hrest : k.Chain hdr ([] ++ k.records) rest := hchain
  exact hrest.findRecord_eq (h.named hg) p h.length_records_lt

theorem walk_eq (h : k.Kept g f) (hg : g.named) :
    k.walk A (k.bankSize + 1) firstVariableOffset = .ok k.infos := by
  obtain ⟨hdr, rest, hchain⟩ := h.chain
  have hrest : k.Chain hdr ([] ++ k.records) rest := hchain
  exact hrest.walk_eq (h.named hg) h.length_records_lt

end Bank.Kept

/-! ## All banks -/

namespace State

variable {P : Platform} {g : Regime} {s : State} {pend : List BankAddr}

/-- The records `RtVarFind` meets, in its order. -/
def infos (s : State) : List (BankAddr × VarInfo) :=
  s.visibleBanks.flatMap fun b => (s.bank b).infos.map (b, ·)

theorem mem_visibleBanks {b : BankAddr} (h : b ∈ s.visibleBanks) :
    ∃ t, b ∈ (s.store t).active := by
  rw [visibleBanks, List.mem_flatMap] at h
  obtain ⟨t, -, hb⟩ := h
  exact ⟨t, hb⟩

theorem Sound.findInBanks_eq (h : s.Sound P g pend) (hg : g.named) (p : VarInfo → Bool)
    (banks : List BankAddr) (hin : ∀ b ∈ banks, s.InService pend b) :
    s.findInBanks P p banks =
      .ok ((banks.flatMap fun b => (s.bank b).infos.map (b, ·)).find? fun x => p x.2) := by
  induction banks with
  | nil => rfl
  | cons b banks ih =>
    have hrest := ih fun b' hb' => hin b' (List.mem_cons_of_mem b hb')
    have hfind : ((s.bank b).infos.map fun info => (b, info)).find? (fun x => p x.2) =
        ((s.bank b).infos.find? p).map (b, ·) := by
      rw [List.find?_map]
      rfl
    rw [findInBanks, (h.kept b (hin b List.mem_cons_self)).findRecord_eq hg, List.flatMap_cons,
      List.find?_append, hfind]
    simp only [bind, Except.bind]
    cases hfound : (s.bank b).infos.find? p with
    | none => exact hrest
    | some info => rfl

theorem Sound.rtVarFind_eq (h : s.Sound P g pend) (hg : g.named) (name : List (BitVec 16))
    (guid : Guid) :
    s.rtVarFind P name guid =
      .ok (s.infos.find? fun x => x.2.isMatch s.efiAtRuntime name guid) :=
  h.findInBanks_eq hg _ _ fun _ hb => .inl (mem_visibleBanks hb)

/-- What `RtVarFind` finds is a valid record of a bank on a list. -/
structure Found (s : State) (b : BankAddr) (info : VarInfo) : Prop where
  active : ∃ t, b ∈ (s.store t).active
  isSome : info.fields.isSome = true
  located : ∃ pre c post, (s.bank b).records = pre ++ c :: post ∧ info = c.info (recordsEnd pre) ∧
    c.valid = true

theorem found_of_find {name : List (BitVec 16)} {guid : Guid} {b : BankAddr} {info : VarInfo}
    (h : (s.infos.find? fun x => x.2.isMatch s.efiAtRuntime name guid) = some (b, info)) :
    s.Found b info := by
  have hmatch := List.find?_some h
  have hmem := List.mem_of_find?_eq_some h
  rw [infos, List.mem_flatMap] at hmem
  obtain ⟨b', hb', hmem⟩ := hmem
  obtain ⟨info', hinfo, heq⟩ := List.mem_map.mp hmem
  cases heq
  obtain ⟨pre, c, post, hrecords, rfl⟩ := Bank.mem_infos.mp hinfo
  have hisSome : ((c.info (recordsEnd pre)).fields).isSome = true := by
    dsimp only [VarInfo.isMatch] at hmatch
    split at hmatch
    · cases hmatch
    · rename_i hfields
      rw [hfields]
      rfl
  refine ⟨mem_visibleBanks hb', hisSome, pre, c, post, hrecords, rfl, ?_⟩
  rw [← c.isSome_fields (recordsEnd pre)]
  exact hisSome

end State

end EfiCore.Var
