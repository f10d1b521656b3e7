import EfiCore.Var.Lookup

/-! # The variables of a state

What a valid record says is a variable: a name, a GUID, attributes and data.  `RtGetVariable`
answers with the first of the variables in sight that are not in transition, and looks at
nothing else.
-/

namespace EfiCore.Var

open EfiCore.Lib

/-! ## The variable of a record -/

structure Variable where
  name : List (BitVec 16)
  vendorGuid : Guid
  attributes : BitVec 32
  data : List Byte
  deriving DecidableEq

/-- What a variable is asked for by. -/
def Variable.key (v : Variable) : List (BitVec 16) × Guid := (v.name, v.vendorGuid)

namespace Record

/-- The variable a record holds, if it is valid. -/
def holding (c : Record) : Option Variable :=
  (c.fields 0).map fun f =>
    { name := f.name, vendorGuid := f.vendorGuid, attributes := f.attributes
      data := slice c f.dataOffset f.dataSize }

/-- A newer record is about to take its place. -/
def inTransition (c : Record) : Bool := hasBits c.state varObsoleteTransition

variable {c : Record} {off : Nat}

/-- Only the offset of the data depends on where the record is. -/
theorem fields_off (c : Record) (off : Nat) :
    c.fields off = (c.fields 0).map fun f => { f with dataOffset := off + f.dataOffset } := by
  simp only [fields]
  split
  · cases c.nameEnd with
    | error => rfl
    | ok r =>
      cases r with
      | none => rfl
      | some e => simp only [Option.map_some, Nat.zero_add]
  · rfl

theorem isSome_holding (c : Record) : c.holding.isSome = c.valid := by
  rw [holding, Option.isSome_map, valid]

theorem holding_eq_none (h : c.valid = false) : c.holding = none := by
  rw [← Option.not_isSome_iff_eq_none, isSome_holding, h]
  exact Bool.false_ne_true

theorem exists_holding (h : c.valid = true) : ∃ v, c.holding = some v := by
  rw [← isSome_holding] at h
  exact Option.isSome_iff_exists.mp h

/-- Where the data of a valid record are. -/
theorem data_within (hnamed : c.Named) {f : VarFields} (h : c.fields 0 = some f) :
    f.dataOffset + f.dataSize = c.varSize - 1 := by
  have hvalid : c.valid = true := by
    rw [valid, h]
    rfl
  obtain ⟨e, he, -, hbefore⟩ := exists_nameEnd hnamed hvalid
  rw [fields, if_pos (stored_of_valid hvalid), he] at h
  dsimp only at h
  obtain rfl := Option.some.inj h
  dsimp only
  omega

/-- The state of a record is not part of its variable. -/
theorem holding_withState (hsized : c.Sized) (hnamed : c.Named) (hvalid : c.valid = true)
    (b : Byte) :
    (c.withState b).holding = if (c.withState b).stored then c.holding else none := by
  rw [holding, fields_withState hsized hnamed hvalid]
  split
  · rw [holding]
    cases hfields : c.fields 0 with
    | none => rfl
    | some f =>
      have hdata := data_within hnamed hfields
      have hlarge := hsized.large'
      rw [Option.map_some, Option.map_some, slice_withState (by omega)]
  · rfl

theorem holding_readded (hsized : c.Sized) (hnamed : c.Named) (hvalid : c.valid = true) :
    c.readded.holding = c.holding := by
  rw [readded, holding_withState hsized hnamed hvalid]
  exact if_pos (stored_readded hsized)

theorem inTransition_readded (hsized : c.Sized) : c.readded.inTransition = false := by
  rw [inTransition, state_readded hsized]
  rfl

/-- `RtVarFind` stops at a record that holds the variable and is not in transition. -/
theorem isMatch_info (c : Record) (off : Nat) (name : List (BitVec 16)) (guid : Guid) :
    (c.info off).isMatch false name guid = true ↔
      ∃ v, c.holding = some v ∧ v.key = (name, guid) ∧ c.inTransition = false := by
  rw [VarInfo.isMatch, info, fields_off]
  cases hfields : c.fields 0 with
  | none => simp [holding, hfields]
  | some f =>
    have hvalid : c.valid = true := by
      rw [valid, hfields]
      rfl
    rw [if_pos (stored_of_valid hvalid)]
    simp [holding, hfields, Variable.key, inTransition]
    grind

end Record

/-! ## The variables in sight -/

namespace State

variable {P : Platform} {g : Regime} {s : State} {pend : List BankAddr}

/-- The records of some banks. -/
def recordsOf (s : State) (banks : List BankAddr) : List Record :=
  banks.flatMap fun b => (s.bank b).records

/-- The variables that can be read. -/
def contents (s : State) : List Variable :=
  ((s.recordsOf s.visibleBanks).filter fun c => !c.inTransition).filterMap Record.holding

/-- What `RtGetVariable` answers for a variable. -/
def respond (v : Option Variable) (dataSize : Option Nat) (hasData : Bool) : GetResult :=
  match v, dataSize with
  | none, _ => ⟨.notFound, none, none⟩
  | some _, none => ⟨.invalidParameter, none, none⟩
  | some v, some size =>
    if size < v.data.length then ⟨.bufferTooSmall, some v.data.length, none⟩
    else if !hasData then ⟨.invalidParameter, some v.data.length, none⟩
    else ⟨.success, some v.data.length, some (v.attributes, v.data)⟩

/-- The first record that matches, and its variable. -/
theorem find_infosFrom (off : Nat) (cs : List Record) (name : List (BitVec 16)) (guid : Guid) :
    ((infosFrom off cs).find? (VarInfo.isMatch false name guid) = none ∧
      ((cs.filter fun c => !c.inTransition).filterMap Record.holding).find?
        (fun v => v.key = (name, guid)) = none) ∨
    ∃ pre c post v, cs = pre ++ c :: post ∧ c.holding = some v ∧
      (infosFrom off cs).find? (VarInfo.isMatch false name guid) =
        some (c.info (off + pre.flatten.length)) ∧
      ((cs.filter fun c => !c.inTransition).filterMap Record.holding).find?
        (fun v => v.key = (name, guid)) = some v := by
  induction cs generalizing off with
  | nil => exact .inl ⟨rfl, rfl⟩
  | cons c cs ih =>
    have hmatch := c.isMatch_info off name guid
    rw [infosFrom, List.find?_cons]
    cases hc : (c.info off).isMatch false name guid with
    | true =>
      obtain ⟨v, hv, hkey, htransition⟩ := hmatch.mp hc
      refine .inr ⟨[], c, cs, v, rfl, hv, rfl, ?_⟩
      rw [List.filter_cons_of_pos (by rw [htransition]; rfl), List.filterMap_cons_some hv,
        List.find?_cons_of_pos (by simpa using hkey)]
    | false =>
      have hskip : (((c :: cs).filter fun c => !c.inTransition).filterMap Record.holding).find?
          (fun v => v.key = (name, guid)) =
          ((cs.filter fun c => !c.inTransition).filterMap Record.holding).find?
            (fun v => v.key = (name, guid)) := by
        cases htransition : c.inTransition with
        | true => rw [List.filter_cons_of_neg (by rw [htransition]; exact Bool.false_ne_true)]
        | false =>
          rw [List.filter_cons_of_pos (by rw [htransition]; rfl)]
          cases hv : c.holding with
          | none => rw [List.filterMap_cons_none hv]
          | some v =>
            rw [List.filterMap_cons_some hv, List.find?_cons_of_neg]
            rw [decide_eq_true_eq]
            intro hkey
            rw [hmatch.mpr ⟨v, hv, hkey, htransition⟩] at hc
            cases hc
      rw [hskip]
      obtain hnone | ⟨pre, x, post, v, hsplit, hv, hfind, hvar⟩ := ih (off + c.length)
      · exact .inl hnone
      · refine .inr ⟨c :: pre, x, post, v, by rw [hsplit, List.cons_append], hv, ?_, hvar⟩
        rw [hfind, List.flatten_cons, List.length_append, Nat.add_assoc]

theorem find_infos (s : State) (hboot : s.efiAtRuntime = false) (name : List (BitVec 16))
    (guid : Guid) :
    ((s.infos.find? fun x => x.2.isMatch s.efiAtRuntime name guid) = none ∧
      s.contents.find? (fun v => v.key = (name, guid)) = none) ∨
    ∃ b pre c post v, (∃ t, b ∈ (s.store t).active) ∧ (s.bank b).records = pre ++ c :: post ∧
      c.holding = some v ∧
      (s.infos.find? fun x => x.2.isMatch s.efiAtRuntime name guid) =
        some (b, c.info (recordsEnd pre)) ∧
      s.contents.find? (fun v => v.key = (name, guid)) = some v := by
  rw [hboot, infos, contents, recordsOf]
  have hin : ∀ b ∈ s.visibleBanks, ∃ t, b ∈ (s.store t).active := fun b hb => mem_visibleBanks hb
  generalize s.visibleBanks = banks at hin
  induction banks with
  | nil => exact .inl ⟨rfl, rfl⟩
  | cons b banks ih =>
    have hrest := ih fun b' hb' => hin b' (List.mem_cons_of_mem b hb')
    have hfind : ((s.bank b).infos.map fun info => (b, info)).find?
        (fun x => x.2.isMatch false name guid) =
        ((s.bank b).infos.find? (VarInfo.isMatch false name guid)).map (b, ·) := by
      rw [List.find?_map]
      rfl
    rw [List.flatMap_cons, List.find?_append, hfind, List.flatMap_cons, List.filter_append,
      List.filterMap_append, List.find?_append]
    obtain ⟨hinfos, hvariables⟩ | ⟨pre, c, post, v, hrecords, hv, hinfos, hvariables⟩ :=
      find_infosFrom firstVariableOffset (s.bank b).records name guid
    · rw [Bank.infos, hinfos, hvariables]
      exact hrest
    · rw [Bank.infos, hinfos, hvariables]
      exact .inr ⟨b, pre, c, post, v, hin b List.mem_cons_self, hrecords, hv, rfl, rfl⟩

/-- `RtGetVariable` at boot time looks at the variables and nothing else. -/
theorem Sound.rtGetVariable_eq (h : s.Sound P g pend) (hg : g.named)
    (hboot : s.efiAtRuntime = false) (name : VarName) (guid : Guid) (dataSize : Option Nat)
    (hasData : Bool) :
    s.rtGetVariable P (some name) (some guid) dataSize hasData =
      .ok (respond (s.contents.find? fun v => v.key = (name.chars, guid)) dataSize hasData) := by
  rw [rtGetVariable, h.rtVarFind_eq hg]
  obtain ⟨hinfos, hvariables⟩ | ⟨b, pre, c, post, v, ⟨t, hb⟩, hrecords, hv, hinfos, hvariables⟩ :=
    s.find_infos hboot name.chars guid
  · rw [hinfos, hvariables]
    rfl
  · rw [hinfos, hvariables]
    have hk := h.kept b (.inl ⟨t, hb⟩)
    obtain ⟨hdr, rest, hchain⟩ := hk.chain
    have hmem : c ∈ (s.bank b).records := by
      rw [hrecords]
      simp
    have hnamed := hk.named hg c hmem
    rw [hrecords] at hchain
    rw [Record.holding] at hv
    cases hfields : c.fields 0 with
    | none =>
      rw [hfields] at hv
      cases hv
    | some f =>
      rw [hfields, Option.map_some] at hv
      obtain rfl := Option.some.inj hv
      have hdata := Record.data_within hnamed hfields
      have hsized := hchain.sized_at
      have hlarge := hsized.large'
      have hle := hsized.varSize_le
      have hread := hchain.holds.readBuffer_at (i := f.dataOffset) (n := f.dataSize) (by omega)
      have hlength : (slice c f.dataOffset f.dataSize).length = f.dataSize :=
        length_slice (by omega)
      have hinfo : (c.info (recordsEnd pre)).fields =
          some { f with dataOffset := recordsEnd pre + f.dataOffset } := by
        rw [Record.info, Record.fields_off, hfields, Option.map_some]
      simp only [bind, Except.bind, hinfo, respond]
      cases dataSize with
      | none => rfl
      | some size =>
        simp only [hlength]
        split
        · rfl
        · split
          · rfl
          · rw [hread]
            rfl

end State

end EfiCore.Var
