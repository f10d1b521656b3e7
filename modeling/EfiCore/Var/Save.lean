import EfiCore.Var.RoundTrip
import EfiCore.Var.Space

/-! # Saving and removing variables

What `RtSetVariable` does to a state that is in order.  A state byte changes, a record is added,
and garbage may be collected before; the state stays in order, and a call fails where a device
does.
-/

namespace EfiCore.Var

open EfiCore.Lib

namespace State

variable {P : Platform} {g : Regime} {s s' s1 s2 : State} {t : StoreType} {b new : BankAddr}
  {pre post : List Record} {c : Record} {info : VarInfo}

/-! ## Changes to one bank of a list -/

theorem Good.onBank (h : s.Good P g) (hb : b ∈ (s.store t).active) (hon : OnBank b s s')
    (hsound : s'.Sound P g []) : s'.Good P g := by
  have hne : ∀ t' b', (s.store t').tBank = some b' → b' ≠ b := by
    rintro t' b' hb' rfl
    obtain ⟨hvarStore, hnot⟩ := h.sound.tBank t' b' hb'
    rw [h.sound.active t b' hb] at hvarStore
    exact hnot (hvarStore ▸ hb)
  refine ⟨⟨hsound, fun t' b' hb' => ?_, fun t' => ?_, fun t' b' hb' hd => ?_, h.inPlace⟩,
    fun b' hb' => ?_⟩
  · rw [hon.store] at hb'
    rw [hon.bank b' (hne t' b' hb')]
    exact h.empty t' b' hb'
  · rw [hon.store, h.tSize t']
    cases hb' : (s.store t').tBank with
    | none => rfl
    | some b' =>
      dsimp only
      rw [hon.bank b' (hne t' b' hb')]
  · rw [hon.store] at hb' ⊢
    exact h.required t' b' hb' hd
  · have hknown := h.sound.numbered b (.inl ⟨t, hb⟩)
    rw [hon.noBanks] at hb'
    have hb'ne : b' ≠ b := by
      rintro rfl
      omega
    rw [hon.flash b' hb'ne]
    exact h.fresh b' hb'

/-- A valid record of a bank on a list, where it is, and what was found out about it. -/
structure Holds (s : State) (t : StoreType) (b : BankAddr) (pre : List Record) (c : Record)
    (post : List Record) (info : VarInfo) : Prop where
  active : b ∈ (s.store t).active
  records : (s.bank b).records = pre ++ c :: post
  placed : c.Placed (recordsEnd pre) info
  isSome : info.fields.isSome = true
  state : info.state = c.state
  valid : c.valid = true

theorem Found.holds (h : s.Found b info) : ∃ t pre c post, s.Holds t b pre c post info := by
  obtain ⟨t, hb⟩ := h.active
  obtain ⟨pre, c, post, hrecords, rfl, hvalid⟩ := h.located
  have hplaced := c.placed_info (recordsEnd pre)
  exact ⟨t, pre, c, post, hb, hrecords, hplaced, h.isSome, (hplaced.valid h.isSome).2, hvalid⟩

theorem Holds.inService (h : s.Holds t b pre c post info) : s.InService [] b := .inl ⟨t, h.active⟩

/-- A record in transition is still a valid record. -/
theorem Holds.marked (h : s.Holds t b pre c post info) (hs : s.Sound P g []) (hg : g.named)
    (hmarked : Marked b pre post c varObsoleteTransition s s') :
    s'.Holds t b pre (c.withBits varObsoleteTransition) post
      { info with state := info.state ||| varObsoleteTransition } := by
  have hmem : c ∈ (s.bank b).records := by
    rw [h.records]
    simp
  have hsized := (hs.split_records h.inService h.records).1
  have hnamed := (hs.kept b h.inService).named hg c hmem
  have hstored := Record.stored_of_valid h.valid
  have hstate : info.state ||| varObsoleteTransition =
      (c.withBits varObsoleteTransition).state := by
    rw [Record.state_withBits hsized, h.state]
  have hstill : (c.withBits varObsoleteTransition).stored = true := by
    rw [Record.stored_withBits hsized _ rfl, hstored]
    rfl
  refine ⟨?_, hmarked.records, ⟨h.placed.varOffset, ?_, ?_, ?_, fun _ => ⟨hstill, hstate⟩⟩,
    h.isSome, hstate, ?_⟩
  · rw [hmarked.on.store]
    exact h.active
  · rw [Record.length_withBits]
    exact h.placed.varSize
  · rw [Record.withBits, Record.varSize_withState hsized]
    exact h.placed.stateOffset
  · rw [Record.length_withBits]
    exact h.placed.nextVarOffset
  · rw [Record.withBits, Record.valid_withState hsized hnamed h.valid]
    exact hstill

/-- It stays where it is when a record is added. -/
theorem Holds.appended (h : s.Holds t b pre c post info) {d : Record}
    (happended : Appended new d s s') :
    ∃ post', s'.Holds t b pre c post' info := by
  have hactive : b ∈ (s'.store t).active := by
    rw [happended.on.store]
    exact h.active
  by_cases hb : b = new
  · subst hb
    refine ⟨post ++ [d], hactive, ?_, h.placed, h.isSome, h.state, h.valid⟩
    rw [happended.records, h.records, List.append_assoc, List.cons_append]
  · refine ⟨post, hactive, ?_, h.placed, h.isSome, h.state, h.valid⟩
    rw [happended.on.bank b hb]
    exact h.records

/-- The bits of a record that is obsolete. -/
def obsoleteBits : Byte := varObsoleteTransition ||| varObsolete

theorem Good.obsoleteVariable (h : s.Good P g) (hr : s.Holds t b pre c post info) :
    ∃ status s', s.obsoleteVariable P b info = .ok (status, s') ∧ s'.Good P g ∧
      Marked b pre post c obsoleteBits s s' ∧
      (status.isError = true → (s'.bank b).deviceError = true) := by
  obtain ⟨status, s', hs', hsound, hmarked, rfl⟩ := h.sound.obsoleteVariable hr.inService
    hr.records hr.placed hr.state fun _ => hr.valid
  refine ⟨_, s', hs', h.onBank hr.active hmarked.on hsound, hmarked, fun herror => ?_⟩
  by_contra hok
  rw [if_neg hok] at herror
  cases herror

/-- The record `c` was saved in the bank `new`, in place of a record that was there before. -/
inductive Saved (new : BankAddr) (c : Record) : Option (BankAddr × VarInfo) → State → State → Prop
  | added {s s' : State} (h : Appended new c s s') : Saved new c none s s'
  | replaced {s s1 s2 s' : State} {b : BankAddr} {info : VarInfo} {t : StoreType}
      {pre post post' : List Record} {old : Record} (hold : s.Holds t b pre old post info)
      (hfirst : Marked b pre post old varObsoleteTransition s s1) (hadded : Appended new c s1 s2)
      (hlast : Marked b pre post' (old.withBits varObsoleteTransition) obsoleteBits s2 s') :
      Saved new c (some (b, info)) s s'

theorem Good.appendRecord (h : s.Good P g) (hnew : new ∈ (s.store t).active) {record : List Byte}
    (hsized : Padded record Record.Sized)
    (hroom : (s.bank new).tail + (record.length + padSize record.length) ≤ (s.bank new).bankSize)
    (hvalid : g.named → Padded record fun c => c.Named ∧ c.valid = true) :
    ∃ s' pad, s.appendRecord P new record = .ok s' ∧ s'.Good P g ∧
      pad.length = padSize record.length ∧ Appended new (record ++ pad) s s' := by
  obtain ⟨s', pad, hs', hsound, hpad, happended⟩ :=
    h.sound.appendRecord (.inl ⟨t, hnew⟩) hsized hroom hvalid
  exact ⟨s', pad, hs', h.onBank hnew happended.on hsound, hpad, happended⟩

theorem Good.replaceVariable (h : s.Good P g) (hg : g.named) (hnew : new ∈ (s.store t).active)
    {record : List Byte} (hsized : Padded record Record.Sized)
    (hroom : (s.bank new).tail + (record.length + padSize record.length) ≤ (s.bank new).bankSize)
    (hvalid : g.named → Padded record fun c => c.Named ∧ c.valid = true)
    (old : Option (BankAddr × VarInfo)) (hold : ∀ b info, old = some (b, info) → s.Found b info) :
    ∃ status s', s.replaceVariable P new record old = .ok (status, s') ∧ s'.Good P g ∧
      ((∃ b, (s'.bank b).deviceError = true) ∨
        (status.isError = false ∧ ∃ pad, pad.length = padSize record.length ∧
          Saved new (record ++ pad) old s s')) := by
  cases old with
  | none =>
    obtain ⟨s', pad, hs', hgood, hpad, happended⟩ := h.appendRecord hnew hsized hroom hvalid
    rw [State.replaceVariable]
    simp only [bind, Except.bind, hs']
    refine ⟨_, s', rfl, hgood, ?_⟩
    cases hfailed : (s'.bank new).deviceError with
    | true => exact .inl ⟨new, hfailed⟩
    | false => exact .inr ⟨rfl, pad, hpad, .added happended⟩
  | some old =>
    obtain ⟨b, info⟩ := old
    obtain ⟨t', pre, c, post, hr⟩ := (hold b info rfl).holds
    obtain ⟨s1, hs1, hsound1, hmarked, -⟩ := h.sound.transit hr.inService hr.records hr.placed
      hr.isSome fun _ => hr.valid
    have hgood1 := h.onBank hr.active hmarked.on hsound1
    rw [State.replaceVariable]
    simp only [bind, Except.bind, hs1]
    by_cases hfailed1 : (s1.bank b).deviceError = true
    · rw [if_pos hfailed1]
      exact ⟨_, s1, rfl, hgood1, .inl ⟨b, hfailed1⟩⟩
    rw [if_neg hfailed1]
    have hroom1 : (s1.bank new).tail + (record.length + padSize record.length) ≤
        (s1.bank new).bankSize := by
      by_cases hb : new = b
      · rw [hb] at hroom ⊢
        have hlength : (s1.bank b).bankSize = (s.bank b).bankSize := hmarked.on.length
        rw [hmarked.tail, hlength]
        exact hroom
      · rw [hmarked.on.bank new hb]
        exact hroom
    obtain ⟨s2, pad, hs2, hgood2, hpad, happended⟩ := hgood1.appendRecord
      (t := t) (by rw [hmarked.on.store]; exact hnew) hsized hroom1 hvalid
    rw [hs2]
    dsimp only
    by_cases hfailed2 : (s2.bank new).deviceError = true
    · rw [if_pos hfailed2]
      exact ⟨_, s2, rfl, hgood2, .inl ⟨new, hfailed2⟩⟩
    rw [if_neg hfailed2]
    obtain ⟨post', hr2⟩ := (hr.marked h.sound hg hmarked).appended happended
    obtain ⟨status, s3, hs3, hgood3, hlast, herror⟩ := hgood2.obsoleteVariable hr2
    refine ⟨status, s3, hs3, hgood3, ?_⟩
    cases hstatus : status.isError with
    | true => exact .inl ⟨b, herror hstatus⟩
    | false => exact .inr ⟨rfl, pad, hpad, .replaced hr hmarked happended hlast⟩

/-! ## Records that fit -/

/-- The size of the record of a variable fits the 12 bits the parser uses. -/
def Fits (name : VarName) (data : List Byte) : Prop :=
  sizeofVariable + 1 + name.size + data.length < 0x1000

section NewRecord

variable {name : VarName} {guid : Guid} {attributes : BitVec 32} {data : List Byte}

theorem padded_newRecord (guid : Guid) (attributes : BitVec 32) (hfits : Fits name data)
    (hdata : data ≠ []) : Padded (newRecord name guid attributes data) Record.Sized :=
  fun _ hpad => sized_newRecord hfits hdata hpad

theorem valid_newRecord (guid : Guid) (hfits : Fits name data) (hattributes : attributes.toNat < 2 ^ 16) :
    Padded (newRecord name guid attributes data) fun c => c.Named ∧ c.valid = true := by
  intro pad _
  refine ⟨named_newRecord hfits, ?_⟩
  rw [Record.valid, fields_newRecord guid pad hfits hattributes]
  rfl

end NewRecord

/-! ## A call of `RtSetVariable` -/

/-- The live record of a variable, where `RtVarFind` finds it. -/
def find (s : State) (name : VarName) (guid : Guid) : Option (BankAddr × VarInfo) :=
  s.infos.find? fun x => x.2.isMatch s.efiAtRuntime name.chars guid

theorem found_of_eq {name : VarName} {guid : Guid} (h : s.find name guid = some (b, info)) :
    s.Found b info := found_of_find h

/-- How a call of `RtSetVariable` turns out: `failed` is whether it returns an error. -/
inductive Set (P : Platform) (g : Regime) (name : VarName) (guid : Guid) (s s' : State) :
    Bool → Prop
  /-- Nothing was changed but by the search for space. -/
  | searched {failed : Bool} {t : StoreType} (h : Rounds P g t s s') : Set P g name guid s s' failed
  /-- A device has failed. -/
  | broken {failed : Bool} {b : BankAddr} (h : (s'.bank b).deviceError = true) :
      Set P g name guid s s' failed
  | saved {t : StoreType} {s1 : State} {new : BankAddr} {attributes : BitVec 32}
      {data pad : List Byte} (h : Rounds P g t s s1) (hgood : s1.Good P g)
      (hnew : new ∈ (s1.store t).active) (hfits : Fits name data) (hdata : data ≠ [])
      (hattributes : attributes.toNat < 2 ^ 16)
      (hpad : pad.length = padSize (newRecord name guid attributes data).length)
      (hsaved : Saved new (newRecord name guid attributes data ++ pad) (s1.find name guid) s1 s') :
      Set P g name guid s s' false
  | removed {b : BankAddr} {info : VarInfo} {t : StoreType} {pre post : List Record} {c : Record}
      (hfound : s.find name guid = some (b, info)) (hr : s.Holds t b pre c post info)
      (hmarked : Marked b pre post c obsoleteBits s s') : Set P g name guid s s' false

theorem Good.removeVariable (h : s.Good P g) (hg : g.named) (name : VarName) (guid : Guid) :
    Ensures (s.removeVariable P name guid) fun r => r.2.Good P g ∧
      Set P g name guid s r.2 r.1.isError := by
  rw [State.removeVariable, h.sound.rtVarFind_eq hg]
  simp only [bind, Except.bind]
  cases hfind : s.find name guid with
  | none =>
    rw [find] at hfind
    rw [hfind]
    exact Ensures.ok ⟨h, .searched (t := .bs) (.asked (.refl s))⟩
  | some old =>
    obtain ⟨b, info⟩ := old
    obtain ⟨t, pre, c, post, hr⟩ := (found_of_eq hfind).holds
    obtain ⟨status, s', hs', hgood, hmarked, herror⟩ := h.obsoleteVariable hr
    have hremoved := Set.removed (P := P) (g := g) hfind hr hmarked
    rw [find] at hfind
    rw [hfind]
    dsimp only
    rw [hs']
    refine Ensures.ok ⟨hgood, ?_⟩
    cases hstatus : status.isError with
    | true => exact .broken (herror hstatus)
    | false => exact hremoved

theorem Good.saveVariable (h : s.Good P g) (hg : g.named) (t : StoreType) {name : VarName}
    (guid : Guid) {attributes : BitVec 32} {data : List Byte} (hfits : Fits name data)
    (hdata : data ≠ []) (hattributes : attributes.toNat < 2 ^ 16) :
    Ensures (s.saveVariable P t name guid attributes data) fun r => r.2.Good P g ∧
      Set P g name guid s r.2 r.1.isError := by
  rw [State.saveVariable]
  refine Ensures.bind (h.findFreeSpace hg t _ P.rounds) fun r hr => ?_
  obtain ⟨hgood, hrounds, -, hspace⟩ := hr
  obtain ⟨⟨new, collected⟩, s1⟩ := r
  cases new with
  | none => exact Ensures.pure ⟨hgood, .searched hrounds⟩
  | some new =>
    obtain ⟨hnew, hroom⟩ := hspace new rfl
    simp only [hasSpace, Bool.and_eq_true, decide_eq_true_eq] at hroom
    have hsized := padded_newRecord guid attributes hfits hdata
    have hvalid := valid_newRecord guid hfits hattributes
    have hreplaced := hgood.replaceVariable hg hnew hsized (Nat.le_of_lt hroom.1.2)
      (fun _ => hvalid) (s1.find name guid) fun b info hfind => found_of_eq hfind
    obtain ⟨status, s2, hs2, hgood2, houtcome⟩ := hreplaced
    have hset : Set P g name guid s s2 status.isError := by
      obtain ⟨b, hfailed⟩ | ⟨hstatus, pad, hpad, hsaved⟩ := houtcome
      · exact .broken hfailed
      · rw [hstatus]
        exact .saved hrounds hgood hnew hfits hdata hattributes hpad hsaved
    dsimp only
    have hlookup : Ensures (s1.rtVarFind P name.chars guid) fun old => old = s1.find name guid := by
      rw [hgood.sound.rtVarFind_eq hg]
      exact Ensures.ok rfl
    refine Ensures.bind hlookup fun old hold => ?_
    subst hold
    cases hfind : s1.find name guid with
    | none =>
      rw [hfind] at hs2
      dsimp only
      rw [hs2]
      exact Ensures.ok ⟨hgood2, hset⟩
    | some old =>
      rw [hfind] at hs2
      refine Ensures.bind (Ensures.self _) fun same _ => ?_
      cases same with
      | true => exact Ensures.pure ⟨hgood, .searched hrounds⟩
      | false =>
        rw [if_neg Bool.false_ne_true, hs2]
        exact Ensures.ok ⟨hgood2, hset⟩

/-- A call of `RtSetVariable` leaves the state in order. -/
theorem Good.rtSetVariable (h : s.Good P g) (hg : g.named) (variableName : Option VarName)
    (guid : Guid) (attributes : BitVec 32) (data : List Byte)
    (hfits : ∀ name, variableName = some name → Fits name data) :
    Ensures (s.rtSetVariable P variableName guid attributes data) fun r => r.2.Good P g ∧
      (r.2 = s ∨ ∃ name, variableName = some name ∧ Set P g name guid s r.2 r.1.isError) := by
  cases variableName with
  | none => exact Ensures.ok ⟨h, .inl rfl⟩
  | some name =>
    rw [State.rtSetVariable]
    refine Ensures.ite (fun _ => Ensures.ok ⟨h, .inl rfl⟩) fun _ => ?_
    refine Ensures.ite (fun _ => Ensures.ok ⟨h, .inl rfl⟩) fun _ => ?_
    refine Ensures.ite (fun _ => Ensures.ok ⟨h, .inl rfl⟩) fun hvalid => ?_
    refine Ensures.ite (fun _ => Ensures.ok ⟨h, .inl rfl⟩) fun _ => ?_
    have hattributes : attributes.toNat < 2 ^ 16 := attributes_lt (not_not.mp hvalid)
    cases hstore : (if data = [] then none else s.destination attributes) with
    | none =>
      exact (h.removeVariable hg name guid).mono fun r hr => ⟨hr.1, .inr ⟨name, rfl, hr.2⟩⟩
    | some t =>
      have hdata : data ≠ [] := by
        rintro rfl
        cases hstore
      refine Ensures.ite (fun _ => Ensures.ok ⟨h, .inl rfl⟩) fun _ => ?_
      exact (h.saveVariable hg t guid (hfits name rfl) hdata hattributes).mono fun r hr =>
        ⟨hr.1, .inr ⟨name, rfl, hr.2⟩⟩

end State

end EfiCore.Var
