import EfiCore.Var.Account
import EfiCore.Var.Blame
import Mathlib.Algebra.Order.BigOperators.Group.Finset

/-! # The search for space ends

The loop in `RtVarFindFreeSpace` goes on as long as `RtVarGarbageCollect` says that it has made
space.  Each of its turns lowers a potential, two for each bank that a device can still get and one
for each live bank with obsolete data in it, provided that a bank that is collected has a
transaction bank to go to.
-/

namespace EfiCore.Var

open EfiCore.Lib

namespace State

variable {P : Platform} {g : Regime} {s s' s1 : State} {t : StoreType} {b old new : BankAddr}
  {size : Nat}

/-- No bank of the store has the space. -/
def Full (P : Platform) (t : StoreType) (size : Nat) (s : State) : Prop :=
  ∀ b ∈ (s.store t).active, s.hasSpace P size b = false

/-- The states in which the loop that starts in `s` calls `RtVarGarbageCollect`. -/
inductive Calls (P : Platform) (t : StoreType) (size : Nat) : State → State → Prop
  | here {s : State} (hfull : s.Full P t size) : Calls P t size s s
  | later {s s1 s' : State} (hfull : s.Full P t size) (h : s.rtVarGarbageCollect P t = .ok (true, s1))
      (hrest : Calls P t size s1 s') : Calls P t size s s'

/-- If the garbage of some bank will be collected, there is a transaction bank for it. -/
def CanCollect (s : State) (t : StoreType) : Prop :=
  ∀ b ∈ (s.store t).active, s.collectable b = true →
    (s.store t).tBankRequired = true ∧ (s.store t).tBank ≠ none

/-- The search for space ends, and each bank that it collects is empty then. -/
structure Ends (P : Platform) (t : StoreType) (size : Nat) (s : State) : Prop where
  finishes : ∃ n, ∀ fuel, n ≤ fuel → s.rtVarFindFreeSpace P t size fuel ≠ .error .outOfRounds
  clears : ∀ s1, Calls P t size s s1 → ∀ b ∈ (s1.store t).active, s1.collectable b = true →
    ∃ s', s1.rtVarGarbageCollectBank P b = .ok s' ∧ (s'.bank b).inUse = (s'.bank b).tail

/-! ## The potential -/

/-- The bank is live and has obsolete data in it. -/
def dirty (s : State) (b : BankAddr) : Bool :=
  !(s.bank b).deviceError && decide ((s.bank b).inUse < (s.bank b).tail)

theorem dirty_of_collectable (h : s.collectable b = true) : s.dirty b = true := by
  rw [collectable, Bool.and_eq_true] at h
  exact h.1

theorem dirty_of_alike (h : (s.bank b).Alike (s'.bank b))
    (hfailed : (s.bank b).deviceError = true → (s'.bank b).deviceError = true)
    (hdirty : s'.dirty b = true) : s.dirty b = true := by
  simp only [dirty, Bool.and_eq_true, Bool.not_eq_true', decide_eq_true_eq] at hdirty ⊢
  rw [h.inUse, h.tail] at hdirty
  refine ⟨?_, hdirty.2⟩
  cases hfault : (s.bank b).deviceError with
  | false => rfl
  | true => rw [hfailed hfault] at hdirty; exact hdirty.1

/-- How many banks the `devices` can still get. -/
def room (s : State) (devices : Finset Nat) : Nat := ∑ d ∈ devices, (2 ^ 32 - s.noBanks d)

def potential (s : State) (t : StoreType) (devices : Finset Nat) : Nat :=
  (s.store t).active.countP s.dirty + 2 * s.room devices

/-- All devices that the store uses. -/
structure Uses (s : State) (t : StoreType) (devices : Finset Nat) : Prop where
  active : ∀ b ∈ (s.store t).active, b.device ∈ devices
  tBank : ∀ b, (s.store t).tBank = some b → b.device ∈ devices

/-! ## A turn -/

/-- The bank that took the records has no obsolete data. -/
theorem Collected.inUse_new (h : Collected old new s s') (hold : old ∈ (s.store t).active)
    (hs : s.Good P g) (hs' : s'.Good P g) (hg : g.counted) :
    (s'.bank new).inUse = (s'.bank new).tail := by
  obtain ⟨moved, hsub, hrecords, htail, -⟩ := h.moved
  have hkOld := hs.sound.kept old (.inl ⟨t, hold⟩)
  obtain ⟨hdr, rest, hchain⟩ := hkOld.chain
  have hall : ∀ c ∈ moved, c.readded.valid = true := by
    intro c hc
    have hmem := List.mem_filter.mp (hsub.subset hc)
    exact Record.valid_readded (hchain.sized c hmem.1)
      (hkOld.named (g.named_of_counted hg) c hmem.1) hmem.2
  have hfilter : (moved.map Record.readded).filter Record.valid = moved.map Record.readded := by
    refine List.filter_eq_self.mpr fun c hc => ?_
    obtain ⟨c', hc', rfl⟩ := List.mem_map.mp hc
    exact hall c' hc'
  have hlengths : (moved.map Record.readded).map List.length = moved.map List.length := by
    rw [List.map_map]
    exact List.map_congr_left fun c _ => Record.length_withState c _
  rw [(hs'.sound.kept new h.served).counted hg, htail, hrecords, inUseOf, hfilter, hlengths]

/-- The lists of the store hold no banks but those that it had. -/
theorem Collected.mem_banks (h : Collected old new s s') (hvarStore : (s.bank old).varStore = t)
    (hold : old ∈ (s.store t).active) :
    ∀ b, b ∈ (s'.store t).active ∨ (s'.store t).tBank = some b → b ∈ (s.store t).active ∨ b = new := by
  obtain ⟨banks, hbanks, -, hlast⟩ := h.lists
  rw [hvarStore] at hbanks hlast
  have hmem : ∀ b ∈ banks, b ∈ (s.store t).active ∨ b = new := by
    intro b hb
    obtain ⟨-, rfl⟩ | ⟨rfl, -⟩ := hbanks
    · obtain hb | hb := List.mem_append.mp hb
      · exact .inl (List.mem_of_mem_erase hb)
      · exact .inr (List.mem_singleton.mp hb)
    · obtain hb | hb := List.mem_append.mp hb
      · obtain hb | hb := List.mem_append.mp hb
        · exact .inl (List.mem_of_mem_erase hb)
        · exact .inl (List.mem_singleton.mp hb ▸ hold)
      · exact .inr (List.mem_singleton.mp hb)
  intro b hb
  obtain ⟨-, hactive, htBank⟩ | ⟨best, hbest, -, hactive, htBank⟩ := hlast
  · rw [hactive, htBank] at hb
    obtain hb | hb := hb
    · exact hmem b hb
    · cases hb
  · rw [hactive, htBank] at hb
    obtain hb | hb := hb
    · exact hmem b (List.mem_of_mem_erase hb)
    · exact hmem b (Option.some.inj hb ▸ hbest)

/-- A collection leaves fewer banks with obsolete data. -/
theorem Collected.countP_dirty_lt (h : Collected old new s s')
    (hvarStore : (s.bank old).varStore = t) (hold : old ∈ (s.store t).active)
    (hdirty : s.dirty old = true) (hs : s.Good P g) (hs' : s'.Good P g) (hg : g.counted)
    (htBank : (s.store t).tBank = some new) :
    (s'.store t).active.countP s'.dirty < (s.store t).active.countP s.dirty := by
  have hnew := h.inUse_new hold hs hs' hg
  have hcleanNew : s'.dirty new = false := by
    rw [dirty, hnew, decide_eq_false (Nat.lt_irrefl _), Bool.and_false]
  -- the other banks are as they were
  have hothers : ((s.store t).active.erase old).countP s'.dirty ≤
      ((s.store t).active.erase old).countP s.dirty := by
    refine List.countP_mono_left fun b hb => ?_
    have hne : b ≠ old := ((hs.sound.nodup t).mem_erase_iff.mp hb).1
    have hneNew : b ≠ new := by
      rintro rfl
      exact (hs.sound.tBank t b htBank).2 (List.mem_of_mem_erase hb)
    exact dirty_of_alike (h.bank b hne hneNew) (h.frame.failed b)
  have hless : ((s.store t).active.erase old).countP s.dirty + 1 =
      (s.store t).active.countP s.dirty := by
    rw [(List.perm_cons_erase hold).countP_eq, List.countP_cons_of_pos hdirty]
  obtain ⟨banks, hbanks, -, hlast⟩ := h.lists
  rw [hvarStore] at hbanks hlast
  have hcount : banks.countP s'.dirty = ((s.store t).active.erase old).countP s'.dirty := by
    obtain ⟨-, rfl⟩ | ⟨rfl, htail, hinUse⟩ := hbanks
    · rw [List.countP_append, List.countP_singleton, hcleanNew, if_neg Bool.false_ne_true,
        Nat.add_zero]
    · have hcleanOld : s'.dirty old = false := by
        rw [dirty, htail, hinUse, decide_eq_false (Nat.lt_irrefl _), Bool.and_false]
      rw [List.countP_append, List.countP_append, List.countP_singleton, List.countP_singleton,
        hcleanNew, hcleanOld, if_neg Bool.false_ne_true]
      simp only [Nat.add_zero]
  have hle : (s'.store t).active.countP s'.dirty ≤ banks.countP s'.dirty := by
    obtain ⟨-, hactive, -⟩ | ⟨best, -, -, hactive, -⟩ := hlast
    · rw [hactive]
    · rw [hactive]
      exact List.erase_sublist.countP_le
  omega

/-- A bank that is added takes up more of the potential than it can bring into it. -/
theorem Grown.potential_lt {devices : Finset Nat} (h : Grown P g t b s s') (hs : s.Good P g)
    (huses : s.Uses t devices) :
    s'.potential t devices < s.potential t devices ∧ s'.Uses t devices := by
  obtain ⟨s1, hasked, hknown, hadded⟩ := h.asked
  obtain ⟨b', hb', hdevice⟩ := h.device
  have hmem : b.device ∈ devices := hdevice ▸ huses.active b' hb'
  have hout : b ∉ (s.store t).active := fun hb =>
    absurd (hs.sound.numbered b (.inl ⟨t, hb⟩)) (Nat.not_lt.mpr h.next)
  have hroom : s'.room devices < s.room devices := by
    refine Finset.sum_lt_sum (fun d _ => ?_) ⟨b.device, hmem, ?_⟩
    · rw [hadded.noBanks]
      exact Nat.sub_le_sub_left (hasked.noBanks d) _
    · rw [hadded.noBanks]
      have hgrown : s.noBanks b.device < s1.noBanks b.device := Nat.lt_of_le_of_lt h.next hknown
      have hlimit := (hasked.bounded b.device).resolve_left (Nat.ne_of_gt hgrown)
      omega
  have hsame : (s.store t).active.countP s'.dirty = (s.store t).active.countP s.dirty := by
    refine List.countP_congr fun b'' hb'' => ?_
    have hne : b'' ≠ b := fun heq => hout (heq ▸ hb'')
    rw [dirty, dirty, hadded.bank b'' hne, hasked.bank]
  have hactive := hadded.active
  rw [hasked.store] at hactive
  have hcount : (s'.store t).active.countP s'.dirty ≤ (s.store t).active.countP s.dirty + 1 := by
    obtain hactive | hactive | hactive := hactive
    · rw [hactive, hsame]
      exact Nat.le_succ _
    · rw [hactive, List.countP_append, hsame]
      exact Nat.add_le_add_left List.countP_le_length _
    · rw [hactive, List.countP_cons, hsame]
      split
      · exact Nat.le_refl _
      · exact Nat.le_succ _
  refine ⟨?_, fun b'' hb'' => ?_, fun b'' hb'' => ?_⟩
  · rw [potential, potential]
    omega
  · obtain hactive | hactive | hactive := hactive
    · exact huses.active b'' (hactive ▸ hb'')
    · rw [hactive] at hb''
      obtain hb'' | hb'' := List.mem_append.mp hb''
      · exact huses.active b'' hb''
      · exact List.mem_singleton.mp hb'' ▸ hmem
    · rw [hactive] at hb''
      obtain rfl | hb'' := List.mem_cons.mp hb''
      · exact hmem
      · exact huses.active b'' hb''
  · rw [hadded.tBank, hasked.store] at hb''
    exact huses.tBank b'' hb''

/-- Every turn that finds a transaction bank for what it collects lowers the potential. -/
theorem Round.potential_lt {devices : Finset Nat} (h : Round P g t s s') (hs : s.Good P g)
    (hs' : s'.Good P g) (hg : g.counted) (hcan : s.CanCollect t) (huses : s.Uses t devices) :
    s'.potential t devices < s.potential t devices ∧ s'.Uses t devices := by
  cases h with
  | grown _ hgrown => exact hgrown.potential_lt hs huses
  | @collected old hold hc hcollects =>
    obtain ⟨hneeded, hsome⟩ := hcan old hold hc
    have hvarStore := hs.sound.active t old hold
    cases hcollects with
    | idle _ hnone => exact absurd hnone hsome
    | inPlace hrequired =>
      rw [hrequired] at hneeded
      cases hneeded
    | @moved new _ htBank hcollected =>
      have hless := hcollected.countP_dirty_lt hvarStore hold (dirty_of_collectable hc) hs hs' hg
        htBank
      have hroom : s'.room devices = s.room devices := by
        rw [room, room, hcollected.frame.noBanks]
      have hdevice : ∀ b, b ∈ (s'.store t).active ∨ (s'.store t).tBank = some b →
          b.device ∈ devices := by
        intro b hb
        obtain hb | rfl := hcollected.mem_banks hvarStore hold b hb
        · exact huses.active b hb
        · exact huses.tBank b htBank
      refine ⟨?_, fun b hb => hdevice b (.inl hb), fun b hb => hdevice b (.inr hb)⟩
      rw [potential, potential, hroom]
      exact Nat.add_lt_add_right hless _

/-! ## The loop -/

theorem full_of_find?_eq_none
    (hfind : (s.store t).active.find? (s.hasSpace P size) = none) : s.Full P t size :=
  fun b hb => Bool.not_eq_true _ ▸ List.find?_eq_none.mp hfind b hb

/-- As many turns are enough as the potential says. -/
theorem Good.findFreeSpace_ends {devices : Finset Nat} (h : s.Good P g) (hg : g.counted)
    (huses : s.Uses t devices) (hcan : ∀ s', Calls P t size s s' → s'.CanCollect t) {fuel : Nat}
    (hfuel : s.potential t devices < fuel) :
    s.rtVarFindFreeSpace P t size fuel ≠ .error .outOfRounds := by
  induction fuel generalizing s with
  | zero => exact absurd hfuel (Nat.not_lt_zero _)
  | succ fuel ih =>
    rw [rtVarFindFreeSpace]
    cases hfind : (s.store t).active.find? (s.hasSpace P size) with
    | some b =>
      intro hbound
      cases hbound
    | none =>
      have hfull := full_of_find?_eq_none hfind
      cases hcollect : s.rtVarGarbageCollect P t with
      | error fault =>
        intro hbound
        obtain rfl := Except.error.inj hbound
        exact (blames_rtVarGarbageCollect P t s).2 _ hcollect rfl
      | ok r =>
        obtain ⟨updated, s1⟩ := r
        obtain ⟨hgood, hturn⟩ := h.garbageCollect (g.named_of_counted hg) t _ hcollect
        simp only [bind, Except.bind]
        cases updated with
        | false =>
          intro hbound
          cases hbound
        | true =>
          obtain ⟨hfalse, -⟩ | ⟨-, hround⟩ := hturn
          · cases hfalse
          · obtain ⟨hless, huses1⟩ :=
              hround.potential_lt h hgood hg (hcan s (.here hfull)) huses
            have hrest := ih hgood huses1 (fun s' hs' => hcan s' (.later hfull hcollect hs'))
              (Nat.lt_of_lt_of_le hless (Nat.le_of_lt_succ hfuel))
            rw [if_pos rfl]
            dsimp only at hrest ⊢
            cases hloop : s1.rtVarFindFreeSpace P t size fuel with
            | ok r =>
              intro hbound
              cases hbound
            | error fault =>
              rw [hloop] at hrest
              exact hrest

/-- The states in which the loop collects garbage are in order. -/
theorem Calls.good (h : Calls P t size s s') (hs : s.Good P g) (hg : g.named) : s'.Good P g := by
  induction h with
  | here => exact hs
  | later _ hcollect _ ih => exact ih (hs.garbageCollect hg t _ hcollect).1

/-- A bank that goes to a transaction bank is empty then, unless a device fails. -/
theorem Good.collectBank_clears (h : s.Good P g) (hg : g.named) (hb : b ∈ (s.store t).active)
    (hc : s.collectable b = true) (hcan : s.CanCollect t) :
    ∃ s', s.rtVarGarbageCollectBank P b = .ok s' ∧
      ((∀ n, s.calls ≤ n → n < s'.calls → (P.answer n).fails = false) →
        (s'.bank b).inUse = (s'.bank b).tail) := by
  obtain ⟨hrequired, hsome⟩ := hcan b hb hc
  obtain ⟨s', hs', hgood, hcollects⟩ := h.collectBank hg hb
  refine ⟨s', hs', fun hanswers => ?_⟩
  cases hcollects with
  | idle _ hnone => exact absurd hnone hsome
  | inPlace hfalse =>
    rw [hrequired] at hfalse
    cases hfalse
  | moved _ _ hcollected =>
    obtain ⟨banks, ⟨hfailed, -⟩ | ⟨-, htail, hinUse⟩, -⟩ := hcollected.lists
    · -- a failure has an answer to blame
      obtain hbefore | ⟨n, hle, hlt, hfails⟩ :=
        (blames_rtVarGarbageCollectBank P b s).1 s' hs' |>.failed b hfailed
      · rw [collectable, hbefore] at hc
        cases hc
      · rw [hanswers n hle hlt] at hfails
        cases hfails
    · rw [htail, hinUse]

/-- The devices of the store at a point of time. -/
theorem exists_uses (s : State) (t : StoreType) : ∃ devices, s.Uses t devices := by
  refine ⟨((s.store t).active.map BankAddr.device ++
    (s.store t).tBank.toList.map BankAddr.device).toFinset, fun b hb => ?_, fun b hb => ?_⟩
  · rw [List.mem_toFinset]
    exact List.mem_append_left _ (List.mem_map_of_mem hb)
  · rw [List.mem_toFinset, hb]
    exact List.mem_append_right _ (List.mem_map_of_mem List.mem_cons_self)

/-! ## The loop without a transaction bank -/

/-- A collection in place adds as much to `InUse` as to `Tail`. -/
theorem Repeated.inUse_lt (h : Repeated b s s') (hb : b ∈ (s.store t).active)
    (hs : s.Good P g) (hs' : s'.Good P g) (hg : g.counted) :
    ∃ n, (s'.bank b).inUse = (s.bank b).inUse + n ∧ (s'.bank b).tail = (s.bank b).tail + n := by
  obtain ⟨added, hvalid, hrecords, htail⟩ := h.records
  have hcounted := (hs.sound.kept b (.inl ⟨t, hb⟩)).counted hg
  have hcounted' := (hs'.sound.kept b (.inl ⟨t, by rwa [h.active]⟩)).counted hg
  refine ⟨(added.map List.length).sum, ?_, htail⟩
  rw [hcounted', hrecords, inUseOf_append, List.filter_eq_self.mpr hvalid, hcounted]

/-- What the loop does not get out of. -/
structure Stuck (P : Platform) (t : StoreType) (size : Nat) (s : State) : Prop where
  tBank : (s.store t).tBank = none
  full : s.Full P t size
  collectable : ∃ b ∈ (s.store t).active, s.collectable b = true
  answers : ∀ n, s.calls ≤ n → (P.answer n).fails = false

/-- A bank that is collectable without a transaction bank has a size of its own. -/
theorem Good.tSize_of_collectable (h : s.Good P g) (hg : g.counted)
    (hb : b ∈ (s.store t).active) (htBank : (s.store t).tBank = none)
    (hc : s.collectable b = true) : (s.bank b).tSize = .bankSize := by
  cases htSize : (s.bank b).tSize with
  | bankSize => rfl
  | varStore =>
    have hzero := h.tSize t
    rw [htBank] at hzero
    have hcounted := (h.sound.kept b (.inl ⟨t, hb⟩)).counted hg
    rw [State.collectable, tSizeOf, htSize] at hc
    dsimp only at hc
    rw [h.sound.active t b hb, hzero, hcounted, inUseOf, firstVariableOffset, sizeofBankHeader] at hc
    simp at hc

/-- Without a transaction bank the turn changes nothing, or doubles the records of a bank. -/
theorem Good.stuck_turn (h : s.Good P g) (hg : g.counted) (hstuck : s.Stuck P t size) :
    ∃ s', s.rtVarGarbageCollect P t = .ok (true, s') ∧ s'.Good P g ∧ s'.Stuck P t size := by
  rw [rtVarGarbageCollect]
  cases hfind : (s.store t).active.find? s.collectable with
  | none =>
    obtain ⟨b, hb, hc⟩ := hstuck.collectable
    exact absurd hc (List.find?_eq_none.mp hfind b hb)
  | some b =>
    have hb := List.mem_of_find?_eq_some hfind
    have hc : s.collectable b = true := List.find?_some hfind
    obtain ⟨s', hs', hgood, hcollects⟩ := h.collectBank (g.named_of_counted hg) hb
    have hvarStore := h.sound.active t b hb
    dsimp only
    rw [hs']
    refine ⟨s', rfl, hgood, ?_⟩
    cases hcollects with
    | moved _ htBank =>
      rw [hstuck.tBank] at htBank
      cases htBank
    | idle _ _ hsame => exact hsame ▸ hstuck
    | inPlace _ hrepeated =>
      have hblames := (blames_rtVarGarbageCollectBank P b s).1 s' hs'
      obtain ⟨n, hinUse, htail⟩ := hrepeated.inUse_lt hb h hgood hg
      obtain ⟨hdr, rest, hchain⟩ :=
        (hgood.sound.kept b (.inl ⟨t, by rwa [hrepeated.active]⟩)).chain
      have htailLe := hchain.tail_le
      have hsmall : (s'.bank b).bankSize < 2 ^ 32 := hchain.small
      have hbankSize : (s'.bank b).bankSize = (s.bank b).bankSize := hrepeated.frame.length b
      have htBank' := hrepeated.tBank
      rw [hvarStore] at htBank'
      have hown := h.tSize_of_collectable hg hb hstuck.tBank hc
      simp only [State.collectable, Bool.and_eq_true, Bool.not_eq_true', decide_eq_true_eq] at hc
      obtain ⟨⟨hlive, hless⟩, -⟩ := hc
      refine ⟨htBank', fun b' hb' => ?_, ⟨b, by rwa [hrepeated.active], ?_⟩, fun n hn => ?_⟩
      · rw [hrepeated.active] at hb'
        have hfull := hstuck.full b' hb'
        rw [← Bool.not_eq_true] at hfull ⊢
        intro hspace
        apply hfull
        by_cases heq : b' = b
        · -- the bank that was collected is fuller than before
          subst heq
          simp only [hasSpace, tSizeOf, hrepeated.tSize, hown, Bool.and_eq_true, Bool.not_eq_true',
            decide_eq_true_eq] at hspace ⊢
          rw [Arch.add_of_lt (by omega)] at hspace ⊢
          refine ⟨⟨hlive, ?_⟩, ?_⟩
          · omega
          · omega
        · -- `*TSize` of another bank is not larger than it was
          have hsame := hrepeated.bank b' heq
          have hvarStore' := h.sound.active t b' hb'
          have hzero := hrepeated.storeTSize
          rw [hvarStore] at hzero
          rw [hasSpace, tSizeOf, hsame] at hspace
          rw [hasSpace, tSizeOf]
          cases htSize : (s.bank b').tSize with
          | bankSize =>
            rw [htSize] at hspace
            exact hspace
          | varStore =>
            rw [htSize, hvarStore', hzero] at hspace
            simp at hspace
      · have hlive' : (s'.bank b).deviceError = false := by
          rw [← Bool.not_eq_true]
          intro hfailed
          obtain hbefore | ⟨n, hle, -, hfails⟩ := hblames.failed b hfailed
          · rw [hlive] at hbefore
            cases hbefore
          · rw [hstuck.answers n hle] at hfails
            cases hfails
        simp only [State.collectable, tSizeOf, hrepeated.tSize, hown, Bool.and_eq_true,
          Bool.not_eq_true', decide_eq_true_eq]
        refine ⟨⟨hlive', ?_⟩, ?_⟩
        · omega
        · omega
      · exact hstuck.answers n (hblames.calls.trans hn)

/-- Then the loop goes on forever. -/
theorem Good.findFreeSpace_hangs (h : s.Good P g) (hg : g.counted) (hstuck : s.Stuck P t size)
    (fuel : Nat) : s.rtVarFindFreeSpace P t size fuel = .error .outOfRounds := by
  induction fuel generalizing s with
  | zero => rfl
  | succ fuel ih =>
    obtain ⟨s', hs', hgood, hstuck'⟩ := h.stuck_turn hg hstuck
    have hfind : (s.store t).active.find? (s.hasSpace P size) = none :=
      List.find?_eq_none.mpr fun b hb => by rw [hstuck.full b hb]; exact Bool.false_ne_true
    rw [rtVarFindFreeSpace, hfind]
    dsimp only
    rw [hs']
    simp only [bind, Except.bind]
    simp only [if_true, ih hgood hstuck']

/-- From every state of a run on clean banks, the search for space ends if it finds a transaction
    bank for what it collects, and each bank that it collects is empty then, unless a device
    fails. -/
theorem freeSpaceSearch_ends {flash : Flash} {noBanks : Nat → Nat} {devices : List Nat}
    (hdevices : devices.Nodup) (hsize : ∀ b, (flash b).length = (P.device b.device).bankSize)
    (hclean : ∀ b, Clean P.arch accounting (flash b)) (hs : Reach P flash noBanks devices Fits s)
    (t : StoreType) (size : Nat) (hcan : ∀ s', Calls P t size s s' → s'.CanCollect t) :
    (∃ n, ∀ fuel, n ≤ fuel → s.rtVarFindFreeSpace P t size fuel ≠ .error .outOfRounds) ∧
      ∀ s1, Calls P t size s s1 → ∀ b ∈ (s1.store t).active, s1.collectable b = true →
        ∃ s', s1.rtVarGarbageCollectBank P b = .ok s' ∧
          ((∀ n, s1.calls ≤ n → n < s'.calls → (P.answer n).fails = false) →
            (s'.bank b).inUse = (s'.bank b).tail) := by
  have hgood : s.Good P accounting := hs.good trivial ⟨hsize, hclean, nofun⟩ hdevices
  obtain ⟨used, huses⟩ := exists_uses s t
  refine ⟨⟨s.potential t used + 1, fun fuel hfuel => ?_⟩, fun s1 hcalls b hb hc => ?_⟩
  · exact hgood.findFreeSpace_ends trivial huses hcan hfuel
  · exact (hcalls.good hgood trivial).collectBank_clears trivial hb hc (hcan s1 hcalls)

/-- A search for more than a bank has, on two banks: it collects the obsolete record of the one in
    use, and then there is nothing left to collect. -/
theorem freeSpaceSearch_ends_rewritten : ∃ s s' : State, s.Rewritten ∧
    (∃ n, ∀ fuel, n ≤ fuel →
      s.rtVarFindFreeSpace pairPlatform .nvBsRt 100 fuel ≠ .error .outOfRounds) ∧
    s.rtVarGarbageCollectBank pairPlatform ⟨0, 1⟩ = .ok s' ∧
    (s'.bank ⟨0, 1⟩).inUse = (s'.bank ⟨0, 1⟩).tail := by
  obtain ⟨s, hs, hfacts⟩ := exists_rewritten
  have hcheck : (do
      let s ← rewritten
      let r ← s.rtVarGarbageCollect pairPlatform .nvBsRt
      let r' ← r.2.rtVarGarbageCollect pairPlatform .nvBsRt
      return decide (r'.1 = false ∧ (s.hasSpace pairPlatform 100 ⟨0, 1⟩) = false ∧
        s.collectable ⟨0, 1⟩ = true ∧
        (r.2.store .nvBsRt).active.all fun b => !r.2.collectable b)) =
      (.ok true : Except Fault Bool) := by decide +kernel
  obtain ⟨s0, hs0, hcheck⟩ := bind_eq_ok hcheck
  obtain rfl : s = s0 := Except.ok.inj (hs.symm.trans hs0)
  obtain ⟨⟨updated, s1⟩, hs1, hcheck⟩ := bind_eq_ok hcheck
  obtain ⟨⟨updated', s2⟩, hs2, hcheck⟩ := bind_eq_ok hcheck
  obtain ⟨rfl, hspace, hc, hnone⟩ := of_decide_eq_true (Except.ok.inj hcheck)
  have hcan : ∀ s', Calls pairPlatform .nvBsRt 100 s s' → s'.CanCollect .nvBsRt := by
    intro s' hcalls
    cases hcalls with
    | here =>
      intro b _ _
      rw [hfacts.tBank]
      exact ⟨hfacts.tBankRequired, nofun⟩
    | later _ hcollect hrest =>
      rw [hs1] at hcollect
      obtain ⟨rfl, rfl⟩ := Prod.mk.inj (Except.ok.inj hcollect)
      have hidle : s1.CanCollect .nvBsRt := by
        intro b hb hcb
        have := List.all_eq_true.mp hnone b hb
        rw [hcb] at this
        cases this
      cases hrest with
      | here => exact hidle
      | later _ hcollect' =>
        rw [hs2] at hcollect'
        cases hcollect'
  have hactive : (⟨0, 1⟩ : BankAddr) ∈ (s.store .nvBsRt).active := by
    rw [hfacts.active]
    exact List.mem_cons_self
  have hfull : s.Full pairPlatform .nvBsRt 100 := by
    intro b hb
    rw [hfacts.active] at hb
    rw [List.mem_singleton.mp hb]
    exact hspace
  obtain ⟨hends, hclears⟩ := freeSpaceSearch_ends (P := pairPlatform) (by decide)
    length_blankBank blankBank_clean (rewritten_reach hs) .nvBsRt 100 hcan
  obtain ⟨s', hs', hempty⟩ := hclears s (.here hfull) ⟨0, 1⟩ hactive hc
  exact ⟨s, s', hfacts, hends, hs', hempty fun _ _ _ => rfl⟩

/-- On a device that updates its bank as a whole, a search that finds an obsolete record never
    ends. -/
theorem not_alwaysEnds : ¬ ∀ (P : Platform) (flash : Flash) (noBanks : Nat → Nat)
    (devices : List Nat) (s : State) (t : StoreType) (size : Nat), devices.Nodup →
    (∀ b, (flash b).length = (P.device b.device).bankSize) →
    (∀ b, Clean P.arch accounting (flash b)) → Reach P flash noBanks devices Fits s →
    Ends P t size s := by
  intro hall
  have hcheck : (do
      let s ← (initial (fun _ => blankBank) fun _ => 1).fwNvStoreInstalled (steadyPlatform 96) [0]
      let r ← s.rtSetVariable (steadyPlatform 96) (some (letters 1)) 0 7 [1]
      let r ← r.2.rtSetVariable (steadyPlatform 96) (some (letters 1)) 0 7 []
      return decide ((r.2.store .nvBsRt).active = [⟨0, 0⟩]) && (r.2.store .nvBsRt).tBank.isNone &&
        !r.2.hasSpace (steadyPlatform 96) 100 ⟨0, 0⟩ && r.2.collectable ⟨0, 0⟩) =
      (.ok true : Except Fault Bool) := by decide +kernel
  obtain ⟨s1, hs1, hcheck⟩ := bind_eq_ok hcheck
  obtain ⟨⟨status2, s2⟩, hs2, hcheck⟩ := bind_eq_ok hcheck
  obtain ⟨⟨status3, s⟩, hs3, hcheck⟩ := bind_eq_ok hcheck
  have hreach1 : Reach (steadyPlatform 96) (fun _ => blankBank) (fun _ => 1) [0] Fits s1 :=
    .installed hs1
  have hreach2 := Reach.set hreach1 (fits_letters [1] (Nat.le_refl 1)) hs2
  have hreach := Reach.set hreach2 (fits_letters [] (Nat.zero_le 1)) hs3
  have hfacts := Except.ok.inj hcheck
  simp only [Bool.and_eq_true, decide_eq_true_eq, Bool.not_eq_true',
    Option.isNone_iff_eq_none] at hfacts
  obtain ⟨⟨⟨hactive, htBank⟩, hfull⟩, hc⟩ := hfacts
  have hgood : s.Good (steadyPlatform 96) accounting := by
    refine hreach.good trivial ⟨length_blankBank, blankBank_clean, ?_⟩ (by decide)
    intro herased
    exact False.elim herased
  have hstuck : s.Stuck (steadyPlatform 96) .nvBsRt 100 := by
    refine ⟨htBank, fun b hb => ?_, ⟨⟨0, 0⟩, by rw [hactive]; exact List.mem_cons_self, hc⟩,
      fun _ _ => rfl⟩
    rw [hactive] at hb
    rw [List.mem_singleton.mp hb]
    exact hfull
  have hends := hall (steadyPlatform 96) (fun _ => blankBank) (fun _ => 1) [0] s .nvBsRt 100
    (by decide) length_blankBank blankBank_clean hreach
  obtain ⟨n, hn⟩ := hends.finishes
  exact hn n (Nat.le_refl n) (hgood.findFreeSpace_hangs trivial hstuck n)

end State

end EfiCore.Var
