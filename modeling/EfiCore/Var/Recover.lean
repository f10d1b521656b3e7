import EfiCore.Var.Save
import EfiCore.Var.Variables

/-! # Recovery of variables

After a power loss a variable may be there twice, and a record may be in transition with no newer
one beside it.  `VarCheckBank` settles this record by record: what it has passed is resolved, so
that no record of it is in transition and no variable is there twice.
-/

namespace EfiCore.Var

open EfiCore.Lib

/-! ## Resolved records -/

/-- No valid record is in transition, and none holds the same variable as another. -/
structure Resolved (cs : List Record) : Prop where
  settled : ∀ c ∈ cs, c.valid = true → c.inTransition = false
  unique : ((cs.filterMap Record.holding).map Variable.key).Nodup

namespace Resolved

variable {cs cs' : List Record} {c : Record} {v : Variable}

theorem nil : Resolved [] := ⟨nofun, List.nodup_nil⟩

theorem perm (h : Resolved cs) (hperm : cs.Perm cs') : Resolved cs' where
  settled c hc := h.settled c (hperm.mem_iff.mpr hc)
  unique := ((hperm.filterMap _).map _).nodup_iff.mp h.unique

theorem concat_invalid (h : Resolved cs) (hinvalid : c.valid = false) : Resolved (cs ++ [c]) := by
  constructor
  · intro c' hc' hvalid
    obtain hc' | hc' := List.mem_append.mp hc'
    · exact h.settled c' hc' hvalid
    · rw [List.mem_singleton.mp hc', hinvalid] at hvalid
      cases hvalid
  · rw [List.filterMap_append, List.filterMap_cons_none (Record.holding_eq_none hinvalid),
      List.filterMap_nil, List.append_nil]
    exact h.unique

theorem concat (h : Resolved cs) (hholding : c.holding = some v) (hsettled : c.inTransition = false)
    (hnew : ∀ c' ∈ cs, ∀ v', c'.holding = some v' → v'.key ≠ v.key) : Resolved (cs ++ [c]) := by
  constructor
  · intro c' hc' hvalid
    obtain hc' | hc' := List.mem_append.mp hc'
    · exact h.settled c' hc' hvalid
    · rw [List.mem_singleton.mp hc']
      exact hsettled
  · rw [List.filterMap_append, List.map_append, List.filterMap_cons_some hholding,
      List.filterMap_nil]
    refine List.nodup_append.mpr ⟨h.unique, List.nodup_singleton _, ?_⟩
    intro key hkey key' hkey' heq
    obtain ⟨v', hv', rfl⟩ := List.mem_map.mp hkey
    obtain ⟨c', hc', hc'v⟩ := List.mem_filterMap.mp hv'
    rw [List.map_singleton, List.mem_singleton] at hkey'
    exact hnew c' hc' v' hc'v (heq.trans hkey')

theorem left (h : Resolved (cs ++ cs')) : Resolved cs where
  settled c hc := h.settled c (List.mem_append_left _ hc)
  unique := by
    have hunique := h.unique
    rw [List.filterMap_append, List.map_append] at hunique
    exact (List.nodup_append.mp hunique).1

end Resolved

namespace State

variable {P : Platform} {g : Regime} {s s' s1 s2 : State} {t : StoreType} {b new : BankAddr}
  {pre post : List Record} {c : Record} {info : VarInfo}

/-! ## Records of several banks -/

theorem mem_recordsOf {banks : List BankAddr} :
    c ∈ s.recordsOf banks ↔ ∃ b ∈ banks, c ∈ (s.bank b).records := List.mem_flatMap

theorem recordsOf_append (s : State) (banks banks' : List BankAddr) :
    s.recordsOf (banks ++ banks') = s.recordsOf banks ++ s.recordsOf banks' := List.flatMap_append

theorem recordsOf_congr {banks : List BankAddr}
    (h : ∀ b ∈ banks, (s'.bank b).records = (s.bank b).records) :
    s'.recordsOf banks = s.recordsOf banks := by
  induction banks with
  | nil => rfl
  | cons b banks ih =>
    rw [recordsOf, List.flatMap_cons, h b List.mem_cons_self]
    exact congrArg _ (ih fun b' hb' => h b' (List.mem_cons_of_mem b hb'))

theorem Appended.recordsOf {d : Record} (h : Appended new d s s') {banks : List BankAddr}
    (hnodup : banks.Nodup) (hnew : new ∈ banks) :
    (s'.recordsOf banks).Perm (s.recordsOf banks ++ [d]) := by
  obtain ⟨before, after, rfl⟩ := List.append_of_mem hnew
  obtain ⟨hbefore, hafter, hdisjoint⟩ := List.nodup_append.mp hnodup
  have hsame : ∀ banks : List BankAddr, new ∉ banks → s'.recordsOf banks = s.recordsOf banks :=
    fun banks hnot => recordsOf_congr fun b hb => by
      rw [h.on.bank b (by rintro rfl; exact hnot hb)]
  have hbank : s'.recordsOf (new :: after) = (s.bank new).records ++ [d] ++ s.recordsOf after := by
    rw [State.recordsOf, List.flatMap_cons, h.records]
    exact congrArg _ (hsame after (List.nodup_cons.mp hafter).1)
  have hold : s.recordsOf (new :: after) = (s.bank new).records ++ s.recordsOf after := rfl
  rw [recordsOf_append, recordsOf_append, hbank, hold,
    hsame before fun hb => hdisjoint new hb new List.mem_cons_self rfl]
  simp only [List.append_assoc]
  exact (List.perm_append_comm.append_left _).append_left _

/-! ## Where a variable is found -/

theorem Sound.nodup_visibleBanks {pend : List BankAddr} (h : s.Sound P g pend) :
    s.visibleBanks.Nodup := by
  rw [visibleBanks, List.nodup_flatMap]
  have hstores : variableStores.Nodup := by decide
  refine ⟨fun t _ => h.nodup t, (hstores.filter _).imp ?_⟩
  intro t t' hne b hb hb'
  exact hne ((h.active t b hb).symm.trans (h.active t' b hb'))

/-- A record before the one that is found does not hold the variable. -/
theorem not_holding_of_find {pend : List BankAddr} (h : s.Sound P g pend)
    (hboot : s.efiAtRuntime = false) {done rest : List BankAddr}
    (hvisible : s.visibleBanks = done ++ b :: rest)
    (hrecords : (s.bank b).records = pre ++ c :: post) {v : Variable}
    {b' : BankAddr} {info' : VarInfo}
    (hfind : (s.infos.find? fun x => x.2.isMatch s.efiAtRuntime v.name v.vendorGuid) =
      some (b', info'))
    (hhere : b' = b ∧ info'.varOffset = recordsEnd pre) :
    ∀ c' ∈ s.recordsOf done ++ pre, c'.inTransition = false →
      ∀ v', c'.holding = some v' → v'.key ≠ v.key := by
  have hnodup := h.nodup_visibleBanks
  rw [hvisible] at hnodup
  obtain ⟨-, -, hdisjoint⟩ := List.nodup_append.mp hnodup
  -- what the search meets before the record `c`
  let before : List (BankAddr × VarInfo) :=
    (done.flatMap fun b => (s.bank b).infos.map (b, ·)) ++
      (infosFrom firstVariableOffset pre).map (b, ·)
  have hsplit : ∃ after, s.infos = before ++ after := by
    refine ⟨(infosFrom (firstVariableOffset + pre.flatten.length) (c :: post)).map (b, ·) ++
      rest.flatMap fun b => (s.bank b).infos.map (b, ·), ?_⟩
    have happend : ∀ (off : Nat) (cs cs' : List Record), infosFrom off (cs ++ cs') =
        infosFrom off cs ++ infosFrom (off + cs.flatten.length) cs' := by
      intro off cs cs'
      induction cs generalizing off with
      | nil => rfl
      | cons c cs ih =>
        rw [List.cons_append, infosFrom, infosFrom, ih, List.flatten_cons, List.length_append,
          Nat.add_assoc, List.cons_append]
    have hbank : (s.bank b).infos = infosFrom firstVariableOffset pre ++
        infosFrom (firstVariableOffset + pre.flatten.length) (c :: post) := by
      rw [Bank.infos, hrecords, happend]
    rw [infos, hvisible, List.flatMap_append, List.flatMap_cons, hbank, List.map_append]
    simp only [before, List.append_assoc]
  obtain ⟨after, hinfos⟩ := hsplit
  have hbefore : ∀ x ∈ before, ¬ (x.1 = b ∧ x.2.varOffset = recordsEnd pre) := by
    intro x hx hat
    obtain hx | hx := List.mem_append.mp hx
    · obtain ⟨b'', hb'', hx⟩ := List.mem_flatMap.mp hx
      obtain ⟨info'', -, rfl⟩ := List.mem_map.mp hx
      exact hdisjoint b'' hb'' b List.mem_cons_self hat.1
    · obtain ⟨info'', hinfo'', rfl⟩ := List.mem_map.mp hx
      obtain ⟨pre', c', post', hpre, rfl⟩ := mem_infosFrom.mp hinfo''
      have hsized : c'.Sized := by
        have hin : b ∈ s.visibleBanks := by
          rw [hvisible]
          simp
        obtain ⟨t, hb⟩ := mem_visibleBanks hin
        obtain ⟨hdr, restB, hchain⟩ := (h.kept b (.inl ⟨t, hb⟩)).chain
        exact hchain.sized c' (by rw [hrecords, hpre]; simp)
      have hoffset : firstVariableOffset + pre'.flatten.length = recordsEnd pre := hat.2
      have hlarge := hsized.large'
      have hle := hsized.varSize_le
      rw [hpre, recordsEnd, List.flatten_append, List.flatten_cons, List.length_append,
        List.length_append] at hoffset
      omega
  have hnone : before.find? (fun x => x.2.isMatch s.efiAtRuntime v.name v.vendorGuid) = none := by
    cases hearlier : before.find? (fun x => x.2.isMatch s.efiAtRuntime v.name v.vendorGuid) with
    | none => rfl
    | some x =>
      rw [hinfos, List.find?_append, hearlier] at hfind
      obtain rfl := Option.some.inj hfind
      exact absurd hhere (hbefore _ (List.mem_of_find?_eq_some hearlier))
  have hall := List.find?_eq_none.mp hnone
  rw [hboot] at hall
  intro c' hc' hsettled v' hv' hkey
  have hmatch : ∀ off, (c'.info off).isMatch false v.name v.vendorGuid = true :=
    fun off => (c'.isMatch_info off _ _).mpr ⟨v', hv', hkey, hsettled⟩
  obtain hc' | hc' := List.mem_append.mp hc'
  · obtain ⟨b'', hb'', hc''⟩ := mem_recordsOf.mp hc'
    obtain ⟨pre', post', hpre⟩ := List.append_of_mem hc''
    refine hall (b'', c'.info (recordsEnd pre')) (List.mem_append_left _ ?_) (hmatch _)
    exact List.mem_flatMap.mpr ⟨b'', hb'', List.mem_map.mpr
      ⟨_, Bank.mem_infos.mpr ⟨pre', c', post', hpre, rfl⟩, rfl⟩⟩
  · obtain ⟨pre', post', hpre⟩ := List.append_of_mem hc'
    refine hall (b, c'.info (recordsEnd pre')) (List.mem_append_right _ ?_) (hmatch _)
    exact List.mem_map.mpr ⟨_, mem_infosFrom.mpr ⟨pre', c', post', hpre, rfl⟩, rfl⟩

/-- No record holds a variable that is not found. -/
theorem not_holding_of_none (hboot : s.efiAtRuntime = false) {v : Variable}
    (hfind : (s.infos.find? fun x => x.2.isMatch s.efiAtRuntime v.name v.vendorGuid) = none) :
    ∀ c ∈ s.recordsOf s.visibleBanks, c.inTransition = false →
      ∀ v', c.holding = some v' → v'.key ≠ v.key := by
  have hall := List.find?_eq_none.mp hfind
  rw [hboot] at hall
  intro c hc hsettled v' hv' hkey
  obtain ⟨b, hb, hc⟩ := mem_recordsOf.mp hc
  obtain ⟨pre, post, hrecords⟩ := List.append_of_mem hc
  refine hall (b, c.info (recordsEnd pre)) ?_ ((c.isMatch_info _ _ _).mpr ⟨v', hv', hkey, hsettled⟩)
  exact List.mem_flatMap.mpr ⟨b, hb, List.mem_map.mpr
    ⟨_, Bank.mem_infos.mpr ⟨pre, c, post, hrecords, rfl⟩, rfl⟩⟩

/-! ## Other stores -/

/-- The banks of other stores than `t` hold the records they held. -/
structure Elsewhere (t : StoreType) (s s' : State) : Prop where
  efiAtRuntime : s'.efiAtRuntime = s.efiAtRuntime
  active : ∀ t', t' ≠ t → (s'.store t').active = (s.store t').active
  records : ∀ t', t' ≠ t → ∀ b ∈ (s.store t').active, (s'.bank b).records = (s.bank b).records

namespace Elsewhere

theorem refl (t : StoreType) (s : State) : Elsewhere t s s :=
  ⟨rfl, fun _ _ => rfl, fun _ _ _ _ => rfl⟩

theorem trans (h : Elsewhere t s s1) (h' : Elsewhere t s1 s2) : Elsewhere t s s2 where
  efiAtRuntime := h'.efiAtRuntime.trans h.efiAtRuntime
  active t' ht' := (h'.active t' ht').trans (h.active t' ht')
  records t' ht' b hb := (h'.records t' ht' b (by rwa [h.active t' ht'])).trans
    (h.records t' ht' b hb)

theorem of_onBank (hs : s.Sound P g []) (hb : b ∈ (s.store t).active) (hon : OnBank b s s') :
    Elsewhere t s s' := by
  refine ⟨hon.efiAtRuntime, fun t' _ => by rw [hon.store], fun t' ht' b' hb' => ?_⟩
  rw [hon.bank b']
  rintro rfl
  exact ht' ((hs.active t' b' hb').symm.trans (hs.active t b' hb))

theorem of_asked (h : Asked s s') : Elsewhere t s s' :=
  ⟨h.efiAtRuntime, fun _ _ => by rw [h.store], fun _ _ _ _ => by rw [h.bank]⟩

end Elsewhere

theorem Collects.elsewhere (h : Collects t b s s') (hs : s.Sound P g [])
    (hb : b ∈ (s.store t).active) : Elsewhere t s s' := by
  have hvarStore := hs.active t b hb
  have hother : ∀ {t' b' b''}, t' ≠ t → b'' ∈ (s.store t').active → (s.bank b').varStore = t →
      b'' ≠ b' := by
    rintro t' b' b'' ht' hb'' ht rfl
    exact ht' ((hs.active t' b'' hb'').symm.trans ht)
  cases h with
  | @moved new _ htBank h =>
    have hnew := (hs.tBank t new htBank).1
    refine ⟨h.frame.efiAtRuntime, fun t' ht' => ?_, fun t' ht' b' hb' => ?_⟩
    · rw [h.store t' (by rwa [hvarStore])]
    · exact (h.bank b' (hother ht' hb' hvarStore) (hother ht' hb' hnew)).records
  | idle _ _ h => exact h ▸ .refl t s
  | inPlace _ h =>
    refine ⟨h.frame.efiAtRuntime, fun t' ht' => ?_, fun t' ht' b' hb' => ?_⟩
    · rw [h.store t' (by rwa [hvarStore])]
    · rw [h.bank b' (hother ht' hb' hvarStore)]

theorem Round.elsewhere (h : Round P g t s s') (hs : s.Sound P g []) : Elsewhere t s s' := by
  cases h with
  | collected hb _ h => exact h.elsewhere hs hb
  | @grown b _ h =>
    obtain ⟨s1, hasked, -, hadded⟩ := h.asked
    refine (Elsewhere.of_asked hasked).trans ⟨hadded.efiAtRuntime, fun t' ht' => ?_,
      fun t' _ b' hb' => ?_⟩
    · rw [hadded.store t' ht']
    · rw [hadded.bank b']
      rintro rfl
      -- the new bank was not known before
      rw [hasked.store] at hb'
      exact absurd (hs.numbered b' (.inl ⟨t', hb'⟩)) (Nat.not_lt.mpr h.next)

theorem Rounds.elsewhere (h : Rounds P g t s s') (hs : s.Sound P g []) : Elsewhere t s s' := by
  induction h with
  | asked h => exact .of_asked h
  | round h hgood _ ih => exact (h.elsewhere hs).trans (ih hgood.sound)

/-! ## Recovery of one record -/

/-- The record is valid no longer. -/
theorem Good.removeRecord (h : s.Good P g) (hg : g.named) (hr : s.Holds t b pre c post info) :
    ∃ s', s.removeRecord P b info = .ok s' ∧ s'.Good P g ∧ Elsewhere t s s' ∧
      s'.store = s.store ∧ ∃ c', c'.valid = false ∧ c'.length = c.length ∧
        (s'.bank b).records = pre ++ c' :: post ∧ ∀ b', b' ≠ b → s'.bank b' = s.bank b' := by
  obtain ⟨s', hs', hsound, hmarked⟩ := h.sound.removeRecord hr.inService hr.records hr.placed
    hr.isSome fun _ => hr.valid
  have hmem : c ∈ (s.bank b).records := by
    rw [hr.records]
    simp
  have hsized := (h.sound.split_records hr.inService hr.records).1
  have hnamed := (h.sound.kept b hr.inService).named hg c hmem
  refine ⟨s', hs', h.onBank hr.active hmarked.on hsound, .of_onBank h.sound hr.active hmarked.on,
    hmarked.on.store, _, ?_, Record.length_withBits c _, hmarked.records, hmarked.on.bank⟩
  rw [Record.withBits, Record.valid_withState hsized hnamed hr.valid, ← Record.withBits,
    Record.stored_withBits hsized _ rfl]
  exact Bool.and_false _

/-- How the recovery of a record ends that has no newer copy: garbage was collected, or there is
    no space for a copy of it, or the copy was made. -/
inductive Restored (P : Platform) (g : Regime) (t : StoreType) (c : Record) (s s' : State) :
    Bool → Prop
  | restart (h : Rounds P g t s s') : Restored P g t c s s' true
  | dropped (h : Asked s s') : Restored P g t c s s' false
  | copied {s1 : State} {new : BankAddr} (h : Asked s s1) (hnew : new ∈ (s1.store t).active)
      (happended : Appended new c.readded s1 s') : Restored P g t c s s' false

theorem Holds.asked (h : s.Holds t b pre c post info) (hasked : Asked s s1) :
    s1.Holds t b pre c post info :=
  ⟨by rw [hasked.store]; exact h.active, by rw [hasked.bank]; exact h.records, h.placed, h.isSome,
    h.state, h.valid⟩

theorem Good.restoreRecord (h : s.Good P g) (hg : g.named) (hr : s.Holds t b pre c post info) :
    Ensures (s.restoreRecord P b info) fun r => r.2.Good P g ∧ Restored P g t c s r.2 r.1 := by
  have hvarStore := h.sound.active t b hr.active
  rw [State.restoreRecord, hvarStore, hr.placed.varSize]
  refine Ensures.bind (h.findFreeSpace hg t _ P.rounds) fun r hfound => ?_
  obtain ⟨⟨new, collected⟩, s1⟩ := r
  obtain ⟨hgood, hrounds, hasked, hspace⟩ := hfound
  cases collected with
  | true => exact Ensures.pure ⟨hgood, .restart hrounds⟩
  | false =>
    have hasked := hasked rfl
    cases new with
    | none => exact Ensures.pure ⟨hgood, .dropped hasked⟩
    | some new =>
      obtain ⟨hnew, hroom⟩ := hspace new rfl
      simp only [hasSpace, Bool.and_eq_true, decide_eq_true_eq] at hroom
      have hr1 := hr.asked hasked
      obtain ⟨s2, hs2, hsound2, happended⟩ := hgood.sound.moveOut hr1.inService
        (.inl ⟨t, hnew⟩) hr1.records hr1.placed (fun _ => hr1.valid) (Nat.le_of_lt hroom.1.2)
      refine Ensures.bind (P := fun s3 => s3 = s2) ?_ fun s3 hs3 => ?_
      · rw [hs2]
        exact Ensures.ok rfl
      · rw [hs3]
        exact Ensures.pure ⟨hgood.onBank hnew happended.on hsound2,
          .copied hasked hnew happended⟩

/-! ## Recovery of a bank -/

theorem visibleBanks_congr (hruntime : s'.efiAtRuntime = s.efiAtRuntime)
    (hactive : ∀ t, (s'.store t).active = (s.store t).active) :
    s'.visibleBanks = s.visibleBanks := by
  rw [visibleBanks, visibleBanks, hruntime]
  simp only [hactive]

/-- The loop over the bank `b` has passed the records `pre`, and the banks `done` before. -/
structure Passing (P : Platform) (g : Regime) (t : StoreType) (done : List BankAddr) (b : BankAddr)
    (rest : List BankAddr) (pre post : List Record) (s : State) : Prop where
  good : s.Good P g
  boot : s.efiAtRuntime = false
  active : b ∈ (s.store t).active
  visible : s.visibleBanks = done ++ b :: rest
  records : (s.bank b).records = pre ++ post
  resolved : Resolved (s.recordsOf done ++ pre)

namespace Passing

variable {done rest : List BankAddr}

theorem not_mem (h : Passing P g t done b rest pre post s) : b ∉ done := by
  have hnodup := h.good.sound.nodup_visibleBanks
  rw [h.visible] at hnodup
  intro hb
  exact (List.nodup_append.mp hnodup).2.2 b hb b List.mem_cons_self rfl

theorem sized (h : Passing P g t done b rest pre (c :: post) s) : c.Sized :=
  (h.good.sound.split_records (.inl ⟨t, h.active⟩) h.records).1

theorem named (h : Passing P g t done b rest pre (c :: post) s) (hg : g.named) : c.Named :=
  (h.good.sound.kept b (.inl ⟨t, h.active⟩)).named hg c (by
    rw [h.records]
    simp)

theorem holds (h : Passing P g t done b rest pre (c :: post) s) (hvalid : c.valid = true) :
    s.Holds t b pre c post (c.info (recordsEnd pre)) := by
  have hplaced := c.placed_info (recordsEnd pre)
  have hisSome : (c.info (recordsEnd pre)).fields.isSome = true := by
    rw [← hvalid]
    exact c.isSome_fields _
  exact ⟨h.active, h.records, hplaced, hisSome, (hplaced.valid hisSome).2, hvalid⟩

/-- The next record is passed as it is. -/
theorem keep (h : Passing P g t done b rest pre (c :: post) s)
    (hresolved : Resolved (s.recordsOf done ++ pre ++ [c])) :
    Passing P g t done b rest (pre ++ [c]) post s where
  good := h.good
  boot := h.boot
  active := h.active
  visible := h.visible
  records := by
    rw [h.records]
    simp
  resolved := by
    rw [← List.append_assoc]
    exact hresolved

/-- The next record was removed. -/
theorem removed (h : Passing P g t done b rest pre (c :: post) s) (hgood : s'.Good P g)
    (helsewhere : Elsewhere t s s') (hstore : s'.store = s.store) {c' : Record}
    (hinvalid : c'.valid = false) (hrecords : (s'.bank b).records = pre ++ c' :: post)
    (hbank : ∀ b', b' ≠ b → s'.bank b' = s.bank b') :
    Passing P g t done b rest (pre ++ [c']) post s' where
  good := hgood
  boot := helsewhere.efiAtRuntime.trans h.boot
  active := by
    rw [hstore]
    exact h.active
  visible := by
    rw [visibleBanks_congr helsewhere.efiAtRuntime fun t => by rw [hstore]]
    exact h.visible
  records := by
    rw [hrecords]
    simp
  resolved := by
    have hdone : s'.recordsOf done = s.recordsOf done := by
      refine recordsOf_congr fun b' hb' => ?_
      rw [hbank b']
      rintro rfl
      exact h.not_mem hb'
    rw [← List.append_assoc, hdone]
    exact h.resolved.concat_invalid hinvalid

/-- A copy of the next record was added to a bank. -/
theorem copied (h : Passing P g t done b rest pre (c :: post) s) (hg : g.named)
    (hgood : s'.Good P g) (hasked : Asked s s1) (happended : Appended new c.readded s1 s')
    {v : Variable} (hholding : c.holding = some v)
    (hnone : ∀ c' ∈ s.recordsOf s.visibleBanks, c'.inTransition = false →
      ∀ v', c'.holding = some v' → v'.key ≠ v.key) :
    ∃ post', Passing P g t done b rest pre (c :: post') s' := by
  have hvalid : c.valid = true := by
    rw [← Record.isSome_holding, hholding]
    rfl
  have hstore : s'.store = s.store := happended.on.store.trans hasked.store
  have hruntime : s'.efiAtRuntime = s.efiAtRuntime :=
    happended.on.efiAtRuntime.trans hasked.efiAtRuntime
  have hvisible : s'.visibleBanks = done ++ b :: rest := by
    rw [visibleBanks_congr hruntime fun t => by rw [hstore]]
    exact h.visible
  have hrecords1 : ∀ banks, s1.recordsOf banks = s.recordsOf banks := by
    intro banks
    exact recordsOf_congr fun b _ => by rw [hasked.bank]
  have hresolved : Resolved (s'.recordsOf done ++ pre) := by
    by_cases hnew : new ∈ done
    · have hnodup := h.good.sound.nodup_visibleBanks
      rw [h.visible] at hnodup
      have hperm := happended.recordsOf (List.nodup_append.mp hnodup).1 hnew
      rw [hrecords1] at hperm
      have hmoved := Record.holding_readded h.sized (h.named hg) hvalid
      have hadded : Resolved (s.recordsOf done ++ pre ++ [c.readded]) := by
        refine h.resolved.concat (hmoved.trans hholding) (Record.inTransition_readded h.sized)
          fun c' hc' v' hv' => ?_
        have hvalid' : c'.valid = true := by
          rw [← Record.isSome_holding, hv']
          rfl
        refine hnone c' ?_ (h.resolved.settled c' hc' hvalid') v' hv'
        rw [h.visible, recordsOf_append]
        obtain hc' | hc' := List.mem_append.mp hc'
        · exact List.mem_append_left _ hc'
        · refine List.mem_append_right _ (mem_recordsOf.mpr ⟨b, List.mem_cons_self, ?_⟩)
          rw [h.records]
          exact List.mem_append_left _ hc'
      refine hadded.perm ?_
      have hlast : (s.recordsOf done ++ pre ++ [c.readded]).Perm
          (s.recordsOf done ++ [c.readded] ++ pre) := by
        rw [List.append_assoc, List.append_assoc]
        exact List.perm_append_comm.append_left _
      exact hlast.trans (hperm.symm.append_right pre)
    · have hsame : s'.recordsOf done = s.recordsOf done := by
        rw [← hrecords1]
        refine recordsOf_congr fun b' hb' => ?_
        rw [happended.on.bank b']
        rintro rfl
        exact hnew hb'
      rw [hsame]
      exact h.resolved
  have hactive : b ∈ (s'.store t).active := by
    rw [hstore]
    exact h.active
  by_cases hb : b = new
  · subst hb
    refine ⟨post ++ [c.readded], hgood, hruntime.trans h.boot, hactive, hvisible, ?_, hresolved⟩
    rw [happended.records, hasked.bank, h.records, List.append_assoc, List.cons_append]
  · refine ⟨post, hgood, hruntime.trans h.boot, hactive, hvisible, ?_, hresolved⟩
    rw [happended.on.bank b hb, hasked.bank, h.records]

/-- The next record is the one that is found. -/
theorem found (h : Passing P g t done b rest pre (c :: post) s) {v : Variable}
    (hholding : c.holding = some v) (hsettled : c.inTransition = false)
    (hfirst : ((s.infos.find? fun x => x.2.isMatch s.efiAtRuntime v.name v.vendorGuid).any
      fun (b', info') => b' ≠ b || info'.varOffset ≠ recordsEnd pre) = false) :
    Passing P g t done b rest (pre ++ [c]) post s := by
  refine h.keep (h.resolved.concat hholding hsettled ?_)
  cases hfind : s.infos.find? fun x => x.2.isMatch s.efiAtRuntime v.name v.vendorGuid with
  | none =>
    -- but the record itself holds the variable
    have hmem : c ∈ s.recordsOf s.visibleBanks := by
      refine mem_recordsOf.mpr ⟨b, ?_, ?_⟩
      · rw [h.visible]
        simp
      · rw [h.records]
        simp
    exact absurd rfl (not_holding_of_none h.boot hfind c hmem hsettled v hholding)
  | some x =>
    obtain ⟨b', info'⟩ := x
    rw [hfind] at hfirst
    simp only [Option.any_some, Bool.or_eq_false_iff, decide_eq_false_iff_not, not_not] at hfirst
    have hbefore := not_holding_of_find h.good.sound h.boot h.visible h.records hfind hfirst
    intro c' hc' v' hv'
    have hvalid' : c'.valid = true := by
      rw [← Record.isSome_holding, hv']
      rfl
    exact hbefore c' hc' (h.resolved.settled c' hc' hvalid') v' hv'

end Passing

/-- How the recovery of banks of the store `t` ends: to be taken up again, or with the banks of
    `banks` resolved. -/
structure Checked (P : Platform) (g : Regime) (t : StoreType) (banks : List BankAddr) (s : State)
    (r : Bool × State) : Prop where
  good : r.2.Good P g
  elsewhere : Elsewhere t s r.2
  resolved : r.1 = false → r.2.store = s.store ∧ Resolved (r.2.recordsOf banks)

theorem Checked.after {banks : List BankAddr} {r : Bool × State} (h : Checked P g t banks s1 r)
    (helsewhere : Elsewhere t s s1) (hstore : s1.store = s.store) : Checked P g t banks s r :=
  ⟨h.good, helsewhere.trans h.elsewhere, fun hdone =>
    ⟨(h.resolved hdone).1.trans hstore, (h.resolved hdone).2⟩⟩

/-- The loop of `VarCheckBank` resolves the rest of the bank. -/
theorem Passing.checkRecords {done rest : List BankAddr}
    (h : Passing P g t done b rest pre post s) (hg : g.named) (fuel : Nat) :
    Ensures (s.checkRecords P b fuel (recordsEnd pre)) (Checked P g t (done ++ [b]) s) := by
  induction fuel generalizing s pre post with
  | zero => exact Ensures.error
  | succ fuel ih =>
    obtain ⟨hdr, restB, hchain⟩ := (h.good.sound.kept b (.inl ⟨t, h.active⟩)).chain
    rw [h.records] at hchain
    rw [State.checkRecords]
    cases post with
    | nil =>
      rw [List.append_nil] at hchain
      rw [hchain.parse_end]
      refine Ensures.ok ⟨h.good, .refl t s, fun _ => ⟨rfl, ?_⟩⟩
      have hbank : s.recordsOf [b] = pre := by
        rw [State.recordsOf, List.flatMap_cons, List.flatMap_nil, List.append_nil, h.records,
          List.append_nil]
      rw [recordsOf_append, hbank]
      exact h.resolved
    | cons c post =>
      have hnext : ∀ c' : Record, c'.length = c.length →
          (c.info (recordsEnd pre)).nextVarOffset = recordsEnd (pre ++ [c']) := by
        intro c' hlength
        rw [recordsEnd_concat, hlength]
        rfl
      rw [hchain.parse_named (h.named hg)]
      simp only [bind, Except.bind]
      cases hfields : (c.info (recordsEnd pre)).fields with
      | none =>
        have hinvalid : c.valid = false := by
          rw [← c.isSome_fields (recordsEnd pre)]
          exact congrArg Option.isSome hfields
        rw [hnext c rfl]
        exact ih (h.keep (h.resolved.concat_invalid hinvalid))
      | some fields =>
        have hvalid : c.valid = true := by
          rw [← c.isSome_fields (recordsEnd pre)]
          exact congrArg Option.isSome hfields
        obtain ⟨v, hholding⟩ := Record.exists_holding hvalid
        have hkey : fields.name = v.name ∧ fields.vendorGuid = v.vendorGuid := by
          rw [Record.info, Record.fields_off] at hfields
          rw [Record.holding] at hholding
          cases hzero : c.fields 0 with
          | none =>
            rw [hzero] at hholding
            cases hholding
          | some f =>
            rw [hzero] at hfields hholding
            obtain rfl := Option.some.inj hfields
            obtain rfl := Option.some.inj hholding
            exact ⟨rfl, rfl⟩
        have hr := h.holds hvalid
        -- whatever is removed, the loop goes on behind it
        have hremove : ∀ {s1 post1}, Passing P g t done b rest pre (c :: post1) s1 →
            Ensures (s1.removeRecord P b (c.info (recordsEnd pre)) >>= fun s2 =>
              State.checkRecords P b fuel (c.info (recordsEnd pre)).nextVarOffset s2)
              (Checked P g t (done ++ [b]) s1) := by
          intro s1 post1 h1
          obtain ⟨s2, hs2, hgood2, helsewhere, hstore, c', hinvalid, hlength, hrecords, hbank⟩ :=
            h1.good.removeRecord hg (h1.holds hvalid)
          rw [hs2, hnext c' hlength]
          exact (ih (h1.removed hgood2 helsewhere hstore hinvalid hrecords hbank)).mono
            fun r hr => hr.after helsewhere hstore
        dsimp only
        rw [h.good.sound.rtVarFind_eq hg, hkey.1, hkey.2]
        have hstate : hasBits (c.info (recordsEnd pre)).state varObsoleteTransition =
            c.inTransition := by
          rw [hr.state]
          rfl
        dsimp only
        rw [hstate]
        cases htransition : c.inTransition with
        | true =>
          rw [if_pos rfl]
          cases hfind : s.infos.find? fun x => x.2.isMatch s.efiAtRuntime v.name v.vendorGuid with
          | some x => exact hremove h
          | none =>
            refine Ensures.bind (h.good.restoreRecord hg hr) fun r hrestored => ?_
            obtain ⟨restart, s1⟩ := r
            obtain ⟨hgood1, hrestored⟩ := hrestored
            cases hrestored with
            | restart hrounds =>
              exact Ensures.pure ⟨hgood1, hrounds.elsewhere h.good.sound,
                fun hfalse => absurd hfalse (Bool.false_ne_true ∘ Eq.symm)⟩
            | dropped hasked =>
              have hasked' : Asked s s1 := hasked
              have h1 : Passing P g t done b rest pre (c :: post) s1 := by
                refine ⟨hgood1, hasked'.efiAtRuntime.trans h.boot, ?_, ?_, ?_, ?_⟩
                · rw [hasked'.store]
                  exact h.active
                · rw [visibleBanks_congr hasked'.efiAtRuntime fun t => by rw [hasked'.store]]
                  exact h.visible
                · rw [hasked'.bank]
                  exact h.records
                · have hsame : s1.recordsOf done = s.recordsOf done :=
                    recordsOf_congr fun b' _ => by rw [hasked'.bank]
                  rw [hsame]
                  exact h.resolved
              exact (hremove h1).mono fun r hr => hr.after (.of_asked hasked') hasked'.store
            | @copied s2 new hasked hnew happended =>
              have happended' : Appended new c.readded s2 s1 := happended
              obtain ⟨post', h1⟩ := h.copied hg hgood1 hasked happended' hholding
                (not_holding_of_none h.boot hfind)
              refine (hremove h1).mono fun r hr => hr.after ?_
                (happended'.on.store.trans hasked.store)
              exact (Elsewhere.of_asked hasked).trans
                (.of_onBank (hasked.sound h.good.sound) hnew happended'.on)
        | false =>
          rw [if_neg Bool.false_ne_true]
          refine Ensures.ite (fun _ => hremove h) fun hfirst => ?_
          rw [hnext c rfl]
          exact ih (h.found hholding htransition (Bool.not_eq_true _ ▸ hfirst))

/-! ## Recovery of the stores -/

/-- The banks of the stores `ts`. -/
def banksOf (s : State) (ts : List StoreType) : List BankAddr :=
  ts.flatMap fun t => (s.store t).active

theorem visibleBanks_boot (hboot : s.efiAtRuntime = false) :
    s.visibleBanks = s.banksOf variableStores := by
  rw [visibleBanks, hboot]
  rfl

theorem Elsewhere.banksOf_eq (h : Elsewhere t s s') {ts : List StoreType} (ht : t ∉ ts) :
    s'.banksOf ts = s.banksOf ts ∧ s'.recordsOf (s'.banksOf ts) = s.recordsOf (s.banksOf ts) := by
  have hbanks : s'.banksOf ts = s.banksOf ts := by
    induction ts with
    | nil => rfl
    | cons t' ts ih =>
      obtain ⟨hne, ht⟩ := not_or.mp fun hmem => ht (List.mem_cons.mpr hmem)
      rw [banksOf, List.flatMap_cons, h.active t' (Ne.symm hne)]
      exact congrArg _ (ih ht)
  refine ⟨hbanks, ?_⟩
  rw [hbanks]
  refine recordsOf_congr fun b hb => ?_
  obtain ⟨t', ht', hb⟩ := List.mem_flatMap.mp hb
  exact h.records t' (by rintro rfl; exact ht ht') b hb

/-- The banks of the store `t` are resolved one after the other, those of the stores `ts` having
    been so before. -/
theorem Good.checkBanksOf (h : s.Good P g) (hg : g.named) (hboot : s.efiAtRuntime = false)
    {ts ts' : List StoreType} (hstores : variableStores = ts ++ t :: ts')
    {before banks : List BankAddr} (hactive : (s.store t).active = before ++ banks)
    (hresolved : Resolved (s.recordsOf (s.banksOf ts ++ before))) (fuel : Nat) :
    Ensures (s.checkBanksOf P t fuel banks) fun s' => s'.Good P g ∧ Elsewhere t s s' ∧
      Resolved (s'.recordsOf (s'.banksOf (ts ++ [t]))) := by
  have hnot : t ∉ ts := by
    have hnodup : variableStores.Nodup := by decide
    rw [hstores] at hnodup
    intro ht
    exact (List.nodup_append.mp hnodup).2.2 t ht t List.mem_cons_self rfl
  induction fuel generalizing s before banks with
  | zero =>
    cases banks with
    | cons => exact Ensures.error
    | nil =>
      rw [State.checkBanksOf]
      refine Ensures.ok ⟨h, .refl t s, ?_⟩
      have hbanks : s.banksOf (ts ++ [t]) = s.banksOf ts ++ before := by
        rw [banksOf, List.flatMap_append, List.flatMap_cons, List.flatMap_nil, List.append_nil,
          hactive, List.append_nil]
        rfl
      rw [hbanks]
      exact hresolved
  | succ fuel ih =>
    cases banks with
    | nil =>
      rw [State.checkBanksOf]
      refine Ensures.ok ⟨h, .refl t s, ?_⟩
      have hbanks : s.banksOf (ts ++ [t]) = s.banksOf ts ++ before := by
        rw [banksOf, List.flatMap_append, List.flatMap_cons, List.flatMap_nil, List.append_nil,
          hactive, List.append_nil]
        rfl
      rw [hbanks]
      exact hresolved
    | cons b banks =>
      have hpassing : Passing P g t (s.banksOf ts ++ before) b (banks ++ s.banksOf ts') []
          (s.bank b).records s := by
        refine ⟨h, hboot, ?_, ?_, rfl, ?_⟩
        · rw [hactive]
          simp
        · rw [visibleBanks_boot hboot, hstores, banksOf, List.flatMap_append, List.flatMap_cons,
            hactive]
          simp only [banksOf, List.append_assoc, List.cons_append]
        · rw [List.append_nil]
          exact hresolved
      rw [State.checkBanksOf]
      refine Ensures.bind (hpassing.checkRecords hg _) fun r hr => ?_
      obtain ⟨restart, s1⟩ := r
      have hgood : s1.Good P g := hr.good
      have helsewhere : Elsewhere t s s1 := hr.elsewhere
      have hboot1 : s1.efiAtRuntime = false := helsewhere.efiAtRuntime.trans hboot
      obtain ⟨hbanks, hrecords⟩ := helsewhere.banksOf_eq hnot
      cases restart with
      | true =>
        dsimp only
        rw [if_pos rfl]
        have hstart : (s1.store t).active = [] ++ (s1.store t).active := rfl
        -- the stores before this one are as they were
        rw [recordsOf_append] at hresolved
        have hbefore : Resolved (s1.recordsOf (s1.banksOf ts ++ [])) := by
          rw [List.append_nil, hrecords]
          exact hresolved.left
        exact (ih hgood hboot1 hstart hbefore).mono fun s2 hs2 =>
          ⟨hs2.1, helsewhere.trans hs2.2.1, hs2.2.2⟩
      | false =>
        obtain ⟨hstore, hdone⟩ := hr.resolved rfl
        dsimp only at hstore hdone ⊢
        rw [if_neg Bool.false_ne_true]
        have hnext : (s1.store t).active = (before ++ [b]) ++ banks := by
          rw [hstore, hactive, List.append_assoc, List.singleton_append]
        have hbefore : Resolved (s1.recordsOf (s1.banksOf ts ++ (before ++ [b]))) := by
          rw [hbanks, ← List.append_assoc]
          exact hdone
        exact (ih hgood hboot1 hnext hbefore).mono fun s2 hs2 =>
          ⟨hs2.1, helsewhere.trans hs2.2.1, hs2.2.2⟩

end State

end EfiCore.Var
